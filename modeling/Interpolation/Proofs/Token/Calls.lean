import Interpolation.Proofs.Token.Bytes

/-!
# A scanner that is asked again and again

A scanner can be asked for tokens any number of times, also after it has failed and after the
template has ended. What it returned so far tiles the template up to the place where it stands
(`Scanner.Tiles`): the texts of the tokens, one after the other, are the template up to there, and
each token says correctly where it starts. That holds of a run of single steps (`tiles_of_run`), and
every sequence of calls is such a run with some idle calls behind it (`run_returned`): a call that
returns no token leaves the scanner as it was, so from then on nothing changes any more.

Since every token takes a byte at least, the idle calls begin at the latest when there were as many
tokens as the template has bytes.
-/

namespace Interpolation.Scanner

/-! ## Calls -/

/-- The scanner after the given number of calls. -/
def after : Nat → Scanner → Scanner
  | 0, s => s
  | n + 1, s => after n s.next.2

/-- What the scanner answers when it has been called the given number of times before. -/
def answer (n : Nat) (s : Scanner) : Except LexError (Option Token) := (after n s).next.1

/-- The tokens that the given number of calls return, white space included. -/
def returned : Nat → Scanner → List Token
  | 0, _ => []
  | n + 1, s =>
    match s.next with
    | (.ok (some t), s') => t :: returned n s'
    | (_, s') => returned n s'

theorem after_add (m n : Nat) (s : Scanner) : after (m + n) s = after n (after m s) := by
  induction m generalizing s with
  | zero => rw [Nat.zero_add, after]
  | succ m ih => rw [Nat.succ_add, after, after, ih]

theorem answer_add (m n : Nat) (s : Scanner) : answer (m + n) s = answer n (after m s) := by
  rw [answer, answer, after_add]

section

variable {s s' : Scanner} {t : Token} {e : LexError}

theorem next_of_step (h : s.step = .ok (some (t, s'))) : s.next = (.ok (some t), s') := by
  rw [next, h]

theorem next_of_none (h : s.step = .ok none) : s.next = (.ok none, s) := by
  rw [next, h]

theorem next_of_error (h : s.step = .error e) : s.next = (.error e, s) := by
  rw [next, h]

theorem after_of_idle (h : s.next.2 = s) (n : Nat) : after n s = s := by
  induction n with
  | zero => rfl
  | succ n ih => rw [after, h, ih]

theorem answer_of_idle (h : s.next.2 = s) (n : Nat) : answer n s = s.next.1 := by
  rw [answer, after_of_idle h]

theorem next_eq_self_of_ne_token (h : ∀ t, s.next.1 ≠ .ok (some t)) : s.next.2 = s := by
  rcases step_cases s with ⟨-, hstep⟩ | ⟨e, -, hstep⟩ | ⟨t, s', -, hstep⟩
  · rw [next_of_none hstep]
  · rw [next_of_error hstep]
  · rw [next_of_step hstep] at h
    exact absurd rfl (h t)

theorem Takes.not_idle (h : Takes s t s') : s.next.2 ≠ s := by
  rw [next_of_step (step_eq_some_iff.mpr h)]
  rintro rfl
  exact Nat.lt_irrefl _ h.offset_lt

theorem exists_takes_of_answer {n : Nat} (h : answer n s = .ok (some t)) :
    ∃ s', Takes (after n s) t s' := by
  rcases step_cases (after n s) with ⟨-, hstep⟩ | ⟨e, -, hstep⟩ | ⟨u, s', htakes, hstep⟩
  · rw [answer, next_of_none hstep] at h
    cases h
  · rw [answer, next_of_error hstep] at h
    cases h
  · rw [answer, next_of_step hstep] at h
    cases h
    exact ⟨s', htakes⟩

theorem answer_eq_none_iff {n : Nat} : answer n s = .ok none ↔ (after n s).rest = [] := by
  rw [← step_eq_none_iff, answer]
  rcases step_cases (after n s) with ⟨-, hstep⟩ | ⟨e, -, hstep⟩ | ⟨u, s', -, hstep⟩
  · simp only [next_of_none hstep, hstep]
  · simp only [next_of_error hstep, hstep, reduceCtorEq]
  · simp only [next_of_step hstep, hstep, Except.ok.injEq, reduceCtorEq]

theorem answer_eq_of_le {n m : Nat} (h : ∀ t, answer n s ≠ .ok (some t)) (hm : n ≤ m) :
    answer m s = answer n s := by
  obtain ⟨i, rfl⟩ := Nat.exists_eq_add_of_le hm
  rw [answer_add, answer_of_idle (next_eq_self_of_ne_token h)]
  rfl

theorem step_of_next_error (h : s.next.1 = .error e) : s.step = .error e := by
  rcases step_cases s with ⟨-, hstep⟩ | ⟨e', -, hstep⟩ | ⟨t, s', -, hstep⟩
  · rw [next_of_none hstep] at h
    cases h
  · rw [next_of_error hstep] at h
    cases h
    exact hstep
  · rw [next_of_step hstep] at h
    cases h

end

theorem offset_le_after (k : Nat) (s : Scanner) : s.offset ≤ (after k s).offset := by
  induction k generalizing s with
  | zero => exact Nat.le_refl _
  | succ k ih =>
    rw [after]
    rcases step_cases s with ⟨-, hstep⟩ | ⟨e, -, hstep⟩ | ⟨t, s', htakes, hstep⟩
    · rw [next_of_none hstep]
      exact ih s
    · rw [next_of_error hstep]
      exact ih s
    · rw [next_of_step hstep]
      exact Nat.le_trans (Nat.le_of_lt htakes.offset_lt) (ih s')

theorem run_returned (n : Nat) (s : Scanner) : Run s (returned n s) (after n s) := by
  induction n generalizing s with
  | zero => exact .refl s
  | succ n ih =>
    rw [after, returned]
    rcases step_cases s with ⟨-, hstep⟩ | ⟨e, -, hstep⟩ | ⟨t, s', -, hstep⟩
    · rw [next_of_none hstep]
      exact ih s
    · rw [next_of_error hstep]
      exact ih s
    · rw [next_of_step hstep]
      exact .step hstep (ih s')

/-! ## Tiling -/

/-- The tokens cover the template up to the place of the scanner, without gaps and overlaps. -/
structure Tiles (input : Text) (ts : List Token) (s : Scanner) : Prop where
  /-- What the tokens do not cover is left. -/
  text_append_rest : ts.flatMap Token.text ++ s.rest = input
  /-- The scanner stands behind the tokens. -/
  offset_eq : s.offset = Text.byteSize (ts.flatMap Token.text)
  /-- Every token has a text, and starts where the texts before it end. -/
  token : ∀ before t behind, ts = before ++ t :: behind →
    t.text ≠ [] ∧ t.offset = Text.byteSize (before.flatMap Token.text)

theorem Tiles.snoc {input : Text} {ts : List Token} {s s' : Scanner} {t : Token}
    (h : Tiles input ts s) (htakes : Takes s t s') : Tiles input (ts ++ [t]) s' := by
  have hflat : (ts ++ [t]).flatMap Token.text = ts.flatMap Token.text ++ t.text := by
    rw [List.flatMap_append, List.flatMap_singleton]
  refine ⟨?_, ?_, ?_⟩
  · rw [hflat, List.append_assoc, ← htakes.rest_eq, h.text_append_rest]
  · rw [hflat, Text.byteSize_append, htakes.offset_next, h.offset_eq]
  · intro before u behind heq
    rcases List.eq_nil_or_concat behind with rfl | ⟨behind, v, rfl⟩
    · obtain ⟨rfl, hu⟩ := List.append_inj' heq rfl
      obtain rfl : t = u := List.singleton_inj.mp hu
      exact ⟨htakes.text_ne_nil, htakes.offset_eq.trans h.offset_eq⟩
    · have hsplit : ts ++ [t] = (before ++ u :: behind) ++ [v] := by
        rw [heq, List.append_assoc, List.cons_append, List.concat_eq_append]
      exact h.token before u behind (List.append_inj_left' hsplit rfl)

theorem tiles_of_run {input : Text} {s s' : Scanner} {before ts : List Token} (h : Run s ts s')
    (hbefore : Tiles input before s) : Tiles input (before ++ ts) s' := by
  induction h generalizing before with
  | refl => rwa [List.append_nil]
  | @step s s₁ s₂ t ts hstep _ ih =>
    have := ih (hbefore.snoc (step_eq_some_iff.mp hstep))
    rwa [List.append_assoc] at this

theorem tiles_ofText (input : Text) : Tiles input [] (ofText input) := ⟨rfl, rfl, by simp⟩

theorem tiles_returned (input : Text) (n : Nat) :
    Tiles input (returned n (ofText input)) (after n (ofText input)) :=
  tiles_of_run (run_returned n _) (tiles_ofText input)

theorem Tiles.offset_le {input : Text} {ts : List Token} {s : Scanner} (h : Tiles input ts s) :
    s.offset ≤ Text.byteSize input := by
  rw [h.offset_eq, ← h.text_append_rest, Text.byteSize_append]
  exact Nat.le_add_right _ _

theorem length_le_length_flatMap {ts : List Token} (h : ∀ t ∈ ts, t.text ≠ []) :
    ts.length ≤ (ts.flatMap Token.text).length := by
  induction ts with
  | nil => exact Nat.le_refl 0
  | cons t ts ih =>
    obtain ⟨ht, hts⟩ := List.forall_mem_cons.mp h
    have hpos := List.length_pos_iff.mpr ht
    have := ih hts
    rw [List.flatMap_cons, List.length_append, List.length_cons]
    omega

theorem Tiles.length_le {input : Text} {ts : List Token} {s : Scanner} (h : Tiles input ts s) :
    ts.length ≤ Text.byteSize input := by
  have hne : ∀ t ∈ ts, t.text ≠ [] := by
    intro t ht
    obtain ⟨before, behind, heq⟩ := List.append_of_mem ht
    exact (h.token before t behind heq).1
  calc ts.length ≤ (ts.flatMap Token.text).length := length_le_length_flatMap hne
    _ ≤ Text.byteSize (ts.flatMap Token.text) := Text.length_le_byteSize _
    _ = s.offset := h.offset_eq.symm
    _ ≤ Text.byteSize input := h.offset_le

/-- The scanner comes to a call that returns no token, and returns one with every call before. -/
theorem exists_idle (s : Scanner) :
    ∃ n, (returned n s).length = n ∧ ∀ t, answer n s ≠ .ok (some t) := by
  induction hn : s.rest.length using Nat.strongRecOn generalizing s with
  | ind n ih =>
    subst hn
    rcases step_cases s with ⟨-, hstep⟩ | ⟨e, -, hstep⟩ | ⟨t, s', -, hstep⟩
    · exact ⟨0, rfl, fun t ht ↦ by rw [answer, after, next_of_none hstep] at ht; cases ht⟩
    · exact ⟨0, rfl, fun t ht ↦ by rw [answer, after, next_of_error hstep] at ht; cases ht⟩
    · obtain ⟨n, hlength, hidle⟩ := ih _ (length_rest_lt hstep) s' rfl
      refine ⟨n + 1, ?_, ?_⟩
      · rw [returned, next_of_step hstep, List.length_cons, hlength]
      · intro u hu
        rw [answer, after, next_of_step hstep] at hu
        exact hidle u hu

/-! ## Scanning a whole template -/

theorem exists_run (s : Scanner) :
    ∃ ts s', Run s ts s' ∧ (s'.rest = [] ∨ ∃ e, s'.step = .error e) := by
  obtain ⟨n, -, hidle⟩ := exists_idle s
  refine ⟨_, _, run_returned n s, ?_⟩
  rcases step_cases (after n s) with ⟨hrest, -⟩ | ⟨e, -, hstep⟩ | ⟨t, s', -, hstep⟩
  · exact .inl hrest
  · exact .inr ⟨e, hstep⟩
  · exact absurd (by rw [answer, next_of_step hstep]) (hidle t)

theorem tokenize_of_returned (input : Text) (n : Nat) {ts : List Token}
    (hrest : (after n (ofText input)).rest = [])
    (hts : (returned n (ofText input)).filter (·.kind ≠ .whitespace) = ts) :
    tokenize input = .ok ts := by
  rw [tokenize_of_run (run_returned n (ofText input)) hrest, hts]

theorem tokenize_of_run_error {input : Text} {s : Scanner} {ts : List Token} {e : LexError}
    (h : Run (ofText input) ts s) (hstep : s.step = .error e) : tokenize input = .error e := by
  rw [tokenize, Scan.ofText, scanFrom_of_run h, scanFrom]
  split <;> rename_i heq <;> rw [hstep] at heq <;> cases heq
  rfl

/-- The tokens of a template are what a run to its end returns, but for white space. -/
theorem tokenize_eq_ok_iff {input : Text} {ts : List Token} :
    tokenize input = .ok ts ↔
      ∃ all s, Run (ofText input) all s ∧ s.rest = [] ∧ ts = all.filter (·.kind ≠ .whitespace) := by
  constructor
  · intro h
    obtain ⟨all, s, hrun, hrest | ⟨e, hstep⟩⟩ := exists_run (ofText input)
    · rw [tokenize_of_run hrun hrest] at h
      cases h
      exact ⟨all, s, hrun, hrest, rfl⟩
    · rw [tokenize_of_run_error hrun hstep] at h
      cases h
  · rintro ⟨all, s, hrun, hrest, rfl⟩
    exact tokenize_of_run hrun hrest

/-- What holds of every token that is cut off holds of all tokens of a run. -/
theorem forall_mem_of_run {P : Token → Prop} (hP : ∀ s t s', Takes s t s' → P t) {s s' : Scanner}
    {ts : List Token} (h : Run s ts s') : ∀ t ∈ ts, P t := by
  induction h with
  | refl => exact List.forall_mem_nil _
  | step hstep _ ih => exact List.forall_mem_cons.mpr ⟨hP _ _ _ (step_eq_some_iff.mp hstep), ih⟩

theorem forall_mem_of_tokenize {P : Token → Prop} (hP : ∀ s t s', Takes s t s' → P t)
    {input : Text} {ts : List Token} (h : tokenize input = .ok ts) : ∀ t ∈ ts, P t := by
  obtain ⟨all, s, hrun, -, rfl⟩ := tokenize_eq_ok_iff.mp h
  exact fun t ht ↦ forall_mem_of_run hP hrun t (List.mem_filter.mp ht).1

/-! ## The scanner as a whole -/

/-- **The scanner tiles the template and stops cleanly.** After any number of calls the tokens cover
the template up to the place of the scanner. What a rule takes is there to be taken, and literal
text is what a pass over the bytes takes. A failure leaves the scanner as it was, points at the
place where it stands, and comes again with every later call; so does the end of the template, which
comes where nothing is left. One of the two comes after at most as many tokens as the template has
bytes. -/
theorem tiles_and_stops (input : Text) (n : Nat) :
    let s := ofText input
    Tiles input (returned n s) (after n s) ∧ (after n s).offset ≤ Text.byteSize input ∧
      (∀ c k width, (after n s).rest.head? = some c → (after n s).recognize c = .ok (k, width) →
        0 < width ∧ width ≤ (after n s).rest.length) ∧
      (∀ t, answer n s = .ok (some t) → t.kind = .literal →
        Text.byteSize t.text = literalBytes 0 (after n s).rest.utf8) ∧
      (∀ e, answer n s = .error e → after (n + 1) s = after n s ∧ (after n s).BlockedBy e ∧
        ∀ m ≥ n, answer m s = .error e) ∧
      (answer n s = .ok none ↔ (after n s).rest = []) ∧
      (answer n s = .ok none → ∀ m ≥ n, answer m s = .ok none) ∧
      ∃ k ≤ Text.byteSize input, (returned k s).length = k ∧
        (answer k s = .ok none ∨ ∃ e, answer k s = .error e) := by
  intro s
  have htiles := tiles_returned input n
  refine ⟨htiles, htiles.offset_le, ?_, ?_, ?_, answer_eq_none_iff, ?_, ?_⟩
  · intro c k width hhead hrec
    obtain ⟨r, hrest⟩ := List.head?_eq_some_iff.mp hhead
    exact ⟨recognize_pos hrest hrec, recognize_le_length hrec⟩
  · intro t ht hliteral
    obtain ⟨s', htakes⟩ := exists_takes_of_answer ht
    exact htakes.byteSize_of_literal hliteral
  · intro e he
    have hidle : ∀ t, answer n s ≠ .ok (some t) := fun t ht ↦ by
      rw [ht] at he
      cases he
    refine ⟨?_, blockedBy_of_step (step_of_next_error he), fun m hm ↦ ?_⟩
    · rw [after_add, after, after, next_eq_self_of_ne_token hidle]
    · rw [answer_eq_of_le hidle hm, he]
  · intro hnone m hm
    rw [← hnone]
    refine answer_eq_of_le (fun t ht ↦ ?_) hm
    rw [ht] at hnone
    cases hnone
  · obtain ⟨k, hlength, hidle⟩ := exists_idle s
    refine ⟨k, ?_, hlength, ?_⟩
    · rw [← hlength]
      exact (tiles_returned input k).length_le
    · cases hanswer : answer k s with
      | error e => exact .inr ⟨e, rfl⟩
      | ok found =>
        cases found with
        | none => exact .inl rfl
        | some t => exact absurd hanswer (hidle t)

end Interpolation.Scanner
