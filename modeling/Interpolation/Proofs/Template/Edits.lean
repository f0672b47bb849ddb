import Interpolation.Proofs.Template.Follows
import Interpolation.Proofs.Token.Shape

/-!
# Scanning an edited template

White space is put between the tokens of expressions, and operators are written in another way with
a space on both sides. The places of such edits are given by the scanner of the original template:
it comes there on its way, inside an expression (`Edited`). The two templates are then scanned side
by side. Their scanners are at different offsets and do not even take equally many tokens, because
the second one may take white space where the first one takes none and the other way round. But they
stay abreast (`Scanner.Abreast`): what is left to the second one is what is left to the first one,
edited, up to white space in front of it. So both find the same signs.

What a token is depends on what follows it, and an edit changes just that. But it leaves the next
character as it is or puts white space before it, and it adds no quotation mark (`Edited.follows`).
-/

namespace Interpolation

/-! ## Edits -/

namespace Scanner

/-- On its way the scanner comes to the offset `n`, inside an expression. -/
def StandsInside (s : Scanner) (n : Nat) : Prop :=
  ∃ k d, (after k s).offset = n ∧ (after k s).mode = .inside d

/-- On its way the scanner returns the token. -/
def Returns (s : Scanner) (t : Token) : Prop := ∃ k, answer k s = .ok (some t)

end Scanner

/-- The second text is the first one, which starts at the offset `n`, with edits at places to which
the scanner comes: white space is put in where it stands inside an expression, and a token that it
returns is replaced by a spelling of the same operator, with a space on both sides. -/
inductive Edited (s : Scanner) : Nat → Text → Text → Prop where
  | nil {n} : Edited s n [] []
  | keep {n c r v} : Edited s (n + c.utf8Size) r v → Edited s n (c :: r) (c :: v)
  | insert {n w r v} : s.StandsInside n → w ≠ [] → (∀ c ∈ w, Text.isWhite c = true) →
      Edited s n r v → Edited s n r (w ++ v)
  | respell {n t w r v} : s.Returns t → t.offset = n → w ∈ (Sign.bare t.kind).spellings →
      Edited s (n + Text.byteSize t.text) r v →
      Edited s n (t.text ++ r) (' ' :: (w ++ ' ' :: v))

theorem quote_notMem_of_mem_spellings {k : Token.Kind} {w : Text}
    (hw : w ∈ (Sign.bare k).spellings) (q : Quote) : q.char ∉ w := by
  have htable : ∀ p ∈ (['!'], Token.Kind.unary .not) :: (symbols ++ Token.keywords),
      Quote.double.char ∉ p.1 ∧ Quote.single.char ∉ p.1 := by decide
  have hword := htable _ (mem_of_mem_spellings w hw)
  cases q with
  | double => exact hword.1
  | single => exact hword.2

theorem Edited.follows {s : Scanner} {n : Nat} {r v : Text} (h : Edited s n r v) : Follows r v := by
  induction h with
  | nil => exact ⟨.inl rfl, fun _ h ↦ h⟩
  | keep _ ih =>
    refine ⟨.inl rfl, fun q hq ↦ ?_⟩
    rw [List.mem_cons, not_or] at hq ⊢
    exact ⟨hq.1, ih.quote q hq.2⟩
  | @insert n w r v _ hne hwhite _ ih =>
    obtain ⟨c, w, rfl⟩ := List.exists_cons_of_ne_nil hne
    refine ⟨.inr ⟨c, rfl, hwhite c List.mem_cons_self⟩, fun q hq ↦ ?_⟩
    rw [List.mem_append, not_or]
    refine ⟨fun hmem ↦ ?_, ih.quote q hq⟩
    have := hwhite _ hmem
    cases q <;> cases this
  | @respell n t w r v _ _ hw _ ih =>
    refine ⟨.inr ⟨' ', rfl, rfl⟩, fun q hq ↦ ?_⟩
    have hspace : q.char ≠ ' ' := by cases q <;> decide
    rw [List.mem_append, not_or] at hq
    simp only [List.mem_cons, List.mem_append, not_or]
    exact ⟨hspace, quote_notMem_of_mem_spellings hw q, hspace, ih.quote q hq.2⟩

namespace Scanner

section

variable {s s' : Scanner} {t u : Token} {n : Nat}

theorem StandsInside.offset_le (h : s.StandsInside n) : s.offset ≤ n := by
  obtain ⟨k, d, rfl, -⟩ := h
  exact offset_le_after k s

theorem Returns.offset_le (h : s.Returns u) : s.offset ≤ u.offset := by
  obtain ⟨k, hk⟩ := h
  obtain ⟨s', htakes⟩ := exists_takes_of_answer hk
  rw [htakes.offset_eq]
  exact offset_le_after k s

/-- A scanner that returns a token stands inside an expression now or with a later call. -/
theorem StandsInside.of_takes (h : s.StandsInside n) (htakes : Takes s t s') :
    (n = s.offset ∧ s.mode ≠ .outer) ∨ s'.StandsInside n := by
  obtain ⟨_ | k, d, hoffset, hmode⟩ := h
  · refine .inl ⟨hoffset.symm, fun houter ↦ ?_⟩
    rw [after, houter] at hmode
    cases hmode
  · rw [after, next_of_step (step_eq_some_iff.mpr htakes)] at hoffset hmode
    exact .inr ⟨k, d, hoffset, hmode⟩

theorem StandsInside.mode_ne (h : s.StandsInside s.offset) (htakes : Takes s t s') :
    s.mode ≠ .outer := by
  rcases h.of_takes htakes with ⟨-, hmode⟩ | hstands
  · exact hmode
  · exact absurd hstands.offset_le (Nat.not_le_of_lt htakes.offset_lt)

theorem Returns.of_takes (h : s.Returns u) (htakes : Takes s t s') : u = t ∨ s'.Returns u := by
  have hnext := next_of_step (step_eq_some_iff.mpr htakes)
  obtain ⟨_ | k, hk⟩ := h
  · rw [answer, after, hnext] at hk
    cases hk
    exact .inl rfl
  · rw [answer, after, hnext] at hk
    exact .inr ⟨k, hk⟩

theorem StandsInside.of_idle (h : s.StandsInside n) (hidle : s.next.2 = s) :
    n = s.offset ∧ s.mode ≠ .outer := by
  obtain ⟨k, d, hoffset, hmode⟩ := h
  rw [after_of_idle hidle] at hoffset hmode
  refine ⟨hoffset.symm, fun houter ↦ ?_⟩
  rw [houter] at hmode
  cases hmode

theorem Returns.not_idle (h : s.Returns u) : s.next.2 ≠ s := by
  intro hidle
  obtain ⟨k, hk⟩ := h
  obtain ⟨s', htakes⟩ := exists_takes_of_answer hk
  rw [after_of_idle hidle] at htakes
  exact htakes.not_idle hidle

theorem Returns.standsInside {w : Text} (h : s.Returns t)
    (hw : w ∈ (Sign.bare t.kind).spellings) : s.StandsInside t.offset := by
  obtain ⟨k, hk⟩ := h
  obtain ⟨s', htakes⟩ := exists_takes_of_answer hk
  rcases recognize_eq_ok_iff.mp (htakes.recognize_eq ' ') with ⟨-, hrec⟩ | ⟨d, hmode, -⟩
  · rcases recognizeOuter_eq_ok_iff.mp hrec with ⟨d, -, hkind, -⟩ | ⟨-, hkind, -⟩ <;>
      rw [hkind] at hw <;> cases hw
  · exact ⟨k, d, htakes.offset_eq.symm, hmode⟩

end

end Scanner

namespace Edited

open Scanner

variable {s s' : Scanner} {t : Token} {n : Nat} {w r v : Text}

/-- Behind a token, the edits that are left are places to which the scanner still comes. -/
theorem of_takes (h : Edited s n r v) (htakes : Takes s t s') (hn : s'.offset ≤ n) :
    Edited s' n r v := by
  have hlt := htakes.offset_lt
  induction h with
  | nil => exact .nil
  | keep _ ih => exact .keep (ih (Nat.le_trans hn (Nat.le_add_right _ _)))
  | insert hstands hne hwhite _ ih =>
    refine .insert ?_ hne hwhite (ih hn)
    rcases hstands.of_takes htakes with ⟨rfl, -⟩ | h
    · omega
    · exact h
  | respell hreturns hoffset hw _ ih =>
    refine .respell ?_ hoffset hw (ih (Nat.le_trans hn (Nat.le_add_right _ _)))
    rcases hreturns.of_takes htakes with rfl | h
    · have := htakes.offset_eq
      omega
    · exact h

/-- Where the scanner does not stand inside an expression, nothing is edited. -/
theorem keeps (h : Edited s n (w ++ r) v)
    (hno : ∀ k, n ≤ k → k < n + Text.byteSize w → ¬s.StandsInside k) :
    ∃ v', v = w ++ v' ∧ Edited s (n + Text.byteSize w) r v' := by
  induction w generalizing n v with
  | nil => exact ⟨v, rfl, h⟩
  | cons c w ih =>
    have hpos := c.utf8Size_pos
    rw [Text.byteSize_cons] at hno ⊢
    generalize heq : c :: w ++ r = x at h
    cases h with
    | nil => cases heq
    | keep h =>
      cases heq
      obtain ⟨v', rfl, hv'⟩ := ih h fun k hk hlt ↦ hno k (by omega) (by omega)
      exact ⟨v', rfl, by rwa [← Nat.add_assoc]⟩
    | insert hstands => exact absurd hstands (hno n (Nat.le_refl n) (by omega))
    | respell hreturns hoffset hw =>
      exact absurd (hoffset ▸ hreturns.standsInside hw) (hno n (Nat.le_refl n) (by omega))

theorem eq_self (h : Edited s n r v) (hno : ∀ k, n ≤ k → ¬s.StandsInside k) : v = r := by
  induction h with
  | nil => rfl
  | keep _ ih => rw [ih fun k hk ↦ hno k (Nat.le_trans (Nat.le_add_right _ _) hk)]
  | insert hstands => exact absurd hstands (hno _ (Nat.le_refl _))
  | respell hreturns hoffset hw =>
    exact absurd (hoffset ▸ hreturns.standsInside hw) (hno _ (Nat.le_refl _))

/-- **An edited text is cut where the original one is.** In place of the token there is the token
itself or another spelling of it, with white space in front; outside expressions there is the token
and nothing else. Behind it goes on what was edited behind the token. -/
theorem cut (h : Edited s s.offset s.rest v) (htakes : Takes s t s') :
    ∃ w x v', v = w ++ (x ++ v') ∧ (∀ c ∈ w, Text.isWhite c = true) ∧
      (x = t.text ∨ ∃ y ∈ (Sign.bare t.kind).spellings, x = ' ' :: (y ++ [' '])) ∧
      (s.mode = .outer → w = [] ∧ x = t.text) ∧ Edited s' s'.offset s'.rest v' := by
  have hlt := htakes.offset_lt
  generalize hn : s.offset = n at h
  generalize hr : s.rest = r at h
  induction h with
  | nil =>
    rw [htakes.rest_eq] at hr
    exact absurd (List.append_eq_nil_iff.mp hr).1 htakes.text_ne_nil
  | @keep n c r v h =>
    obtain ⟨a, w, htext⟩ := List.exists_cons_of_ne_nil htakes.text_ne_nil
    rw [htakes.rest_eq, htext] at hr
    cases hr
    have hoffset : s'.offset = n + c.utf8Size + Text.byteSize w := by
      rw [htakes.offset_next, htext, Text.byteSize_cons, hn, Nat.add_assoc]
    -- between the first character and the end of the token the scanner does not stop
    obtain ⟨v', rfl, hv'⟩ := h.keeps fun k hk hlt' hstands ↦ by
      have hpos := c.utf8Size_pos
      rcases hstands.of_takes htakes with ⟨rfl, -⟩ | hstands'
      · omega
      · have := hstands'.offset_le
        omega
    rw [← hoffset] at hv'
    exact ⟨[], t.text, v', by rw [htext]; rfl, List.forall_mem_nil _, .inl rfl, fun _ ↦ ⟨rfl, rfl⟩,
      hv'.of_takes htakes (Nat.le_refl _)⟩
  | @insert n w r v hstands hne hwhite _ ih =>
    obtain ⟨w', x, v', rfl, hw', hx, -, hv'⟩ := ih hn hr
    refine ⟨w ++ w', x, v', (List.append_assoc _ _ _).symm, ?_, hx, fun houter ↦ ?_, hv'⟩
    · exact List.forall_mem_append.mpr ⟨hwhite, hw'⟩
    · subst hn
      exact absurd houter (hstands.mode_ne htakes)
  | @respell n u w r v hreturns hoffset hw h _ =>
    obtain rfl : u = t := by
      rcases hreturns.of_takes htakes with heq | hreturns'
      · exact heq
      · have := hreturns'.offset_le
        omega
    obtain rfl : s'.rest = r := by
      rw [htakes.rest_eq] at hr
      exact List.append_cancel_left hr
    have hnext : s'.offset = n + Text.byteSize u.text := by rw [htakes.offset_next, hn]
    rw [← hnext] at h
    refine ⟨[], ' ' :: (w ++ [' ']), v, by simp, List.forall_mem_nil _, .inr ⟨w, hw, rfl⟩,
      fun houter ↦ ?_, h.of_takes htakes (Nat.le_refl _)⟩
    have hstands := hreturns.standsInside hw
    rw [hoffset, ← hn] at hstands
    exact absurd houter (hstands.mode_ne htakes)

/-- Where the scanner goes no further, white space may have been put in, inside an expression. -/
theorem of_idle (h : Edited s s.offset s.rest v) (hidle : s.next.2 = s) :
    ∃ w, v = w ++ s.rest ∧ (∀ c ∈ w, Text.isWhite c = true) ∧ (s.mode = .outer → w = []) := by
  generalize hn : s.offset = n at h
  generalize s.rest = r at h
  induction h with
  | nil => exact ⟨[], rfl, List.forall_mem_nil _, fun _ ↦ rfl⟩
  | @keep n c r v h =>
    refine ⟨[], ?_, List.forall_mem_nil _, fun _ ↦ rfl⟩
    rw [h.eq_self fun k hk hstands ↦ by
      have := c.utf8Size_pos
      have := (hstands.of_idle hidle).1
      omega]
    rfl
  | @insert n w r v hstands _ hwhite _ ih =>
    obtain ⟨w', rfl, hw', -⟩ := ih hn
    refine ⟨w ++ w', (List.append_assoc _ _ _).symm, ?_, fun houter ↦ ?_⟩
    · exact List.forall_mem_append.mpr ⟨hwhite, hw'⟩
    · exact absurd houter (hstands.of_idle hidle).2
  | respell hreturns => exact absurd hidle hreturns.not_idle

end Edited

/-! ## Scanning side by side -/

namespace Scanner

/-- Two scanners, of which the second one is at the same place of an edited template. Inside an
expression the white space in front of it does not count. -/
structure Abreast (s u : Scanner) : Prop where
  /-- Both scanners are in the same mode. -/
  modes_eq : ∃ m : Mode, s.modes = m.stack ∧ u.modes = m.stack
  /-- What is left to the second one is what is left to the first one, edited. -/
  rest_eq : ∃ v, Edited s s.offset s.rest v ∧
    (u.rest = v ∨ s.mode ≠ .outer ∧ u.rest.dropWhile Text.isWhite = v.dropWhile Text.isWhite)

theorem Takes.recognize_inside {s s' : Scanner} {t : Token} {d : Delimiter} (h : Takes s t s')
    (hm : s.modes = (Mode.inside d).stack) :
    Token.recognize (t.text ++ s'.rest) = some (t.kind, t.text.length) := by
  rcases recognize_eq_ok_iff.mp (h.recognize_eq ' ') with ⟨houter, -⟩ | ⟨-, -, hrec⟩
  · rw [mode_of_stack hm] at houter
    cases houter
  · rwa [h.rest_eq] at hrec

theorem takes_inside {u : Scanner} {d : Delimiter} {m : Mode} {w r : Text} {k : Token.Kind}
    (hm : u.modes = (Mode.inside d).stack) (hrest : u.rest = w ++ r)
    (hrec : Token.recognize (w ++ r) = some (k, w.length))
    (hafter : (Mode.inside d).after k = some m) :
    Takes u ⟨k, w, .inside d, u.offset⟩ ⟨r, u.offset + Text.byteSize w, m.stack⟩ := by
  refine ⟨ne_nil_of_recognize hrec, hrest, fun c ↦ ?_, shift_of_after hm hafter,
    (mode_of_stack hm).symm, rfl, rfl⟩
  rw [← hrest] at hrec
  exact recognize_eq_ok_iff.mpr (.inr ⟨d, mode_of_stack hm, hrec⟩)

theorem exists_run_white {u : Scanner} {d : Delimiter} (hm : u.modes = (Mode.inside d).stack) :
    ∃ us u', Run u us u' ∧ (∀ t ∈ us, t.kind = .whitespace) ∧
      u'.modes = (Mode.inside d).stack ∧ u'.rest = u.rest.dropWhile Text.isWhite := by
  have hsplit : u.rest.takeWhile Text.isWhite ++ u.rest.dropWhile Text.isWhite = u.rest :=
    List.takeWhile_append_dropWhile
  cases hwhite : u.rest.takeWhile Text.isWhite with
  | nil =>
    rw [hwhite, List.nil_append] at hsplit
    exact ⟨[], u, .refl u, List.forall_mem_nil _, hm, hsplit.symm⟩
  | cons c w =>
    rw [hwhite] at hsplit
    have hc : Text.isWhite c = true :=
      List.all_eq_true.mp (hwhite ▸ List.all_takeWhile) c List.mem_cons_self
    have hrec : Token.recognize (c :: w ++ u.rest.dropWhile Text.isWhite) =
        some (.whitespace, (c :: w).length) := by
      rw [List.cons_append, Token.recognize_white hc, ← List.cons_append, hsplit, hwhite]
    have htakes := takes_inside hm hsplit.symm hrec (Mode.after_of_isInner rfl d)
    exact ⟨_, _, .step (step_eq_some_iff.mpr htakes) (.refl _), List.forall_mem_singleton.mpr rfl,
      rfl, rfl⟩

/-- A scanner that goes no further inside an expression does not stand before white space. -/
theorem stops_isWhite_of_idle {s : Scanner} {d : Delimiter}
    (hm : s.modes = (Mode.inside d).stack) (hidle : s.next.2 = s) :
    s.rest.Stops Text.isWhite := by
  obtain ⟨us, s', hrun, -, -, hrest⟩ := exists_run_white hm
  cases hrun with
  | refl =>
    rw [hrest]
    intro c hc
    have := List.head?_dropWhile_not Text.isWhite s.rest
    rwa [show (s.rest.dropWhile Text.isWhite).head? = some c from hc] at this
  | step hstep => exact absurd hidle (step_eq_some_iff.mp hstep).not_idle

theorem endsLiteral_of_edited {s : Scanner} {v : Text} (h : Edited s s.offset s.rest v)
    (hm : s.modes = Mode.outer.stack) (hends : s.rest = [] ∨ endsLiteral s.rest = true) :
    v = s.rest ∨ EndsLiteral v := by
  have hidle (hnext : s.next.2 = s) : v = s.rest := by
    obtain ⟨w, rfl, -, hw⟩ := h.of_idle hnext
    rw [hw (mode_of_stack hm)]
    rfl
  rcases step_cases s with ⟨-, hstep⟩ | ⟨e, -, hstep⟩ | ⟨t, s', htakes, -⟩
  · exact .inl (hidle (by rw [next_of_none hstep]))
  · exact .inl (hidle (by rw [next_of_error hstep]))
  · obtain ⟨w, x, v', rfl, -, -, hx, -⟩ := h.cut htakes
    obtain ⟨rfl, rfl⟩ := hx (mode_of_stack hm)
    rcases htakes.recognize_outer hm with ⟨d, -, htext⟩ | ⟨-, hfalse⟩
    · rw [htext]
      exact .inr (.inr ⟨d, v', rfl⟩)
    · rcases hends with hnil | htrue
      · rw [htakes.rest_eq] at hnil
        exact absurd (List.append_eq_nil_iff.mp hnil).1 htakes.text_ne_nil
      · rw [htrue] at hfalse
        cases hfalse

namespace Abreast

variable {s s' u : Scanner} {t : Token}

/-- Inside an expression the white space in front of the second scanner never counts. -/
theorem exists_run (h : Abreast s u) {d : Delimiter} (hm : s.modes = (Mode.inside d).stack) :
    ∃ us u' v, Run u us u' ∧ (∀ t ∈ us, t.kind = .whitespace) ∧
      u'.modes = (Mode.inside d).stack ∧ Edited s s.offset s.rest v ∧
        u'.rest = v.dropWhile Text.isWhite := by
  obtain ⟨m, hsm, hum⟩ := h.modes_eq
  obtain rfl : m = .inside d := (mode_of_stack hsm).symm.trans (mode_of_stack hm)
  obtain ⟨us, u', hrun, hwhite, hum', hrest⟩ := exists_run_white hum
  obtain ⟨v, hv, hsame⟩ := h.rest_eq
  refine ⟨us, u', v, hrun, hwhite, hum', hv, ?_⟩
  rcases hsame with rfl | ⟨-, hsame⟩
  · exact hrest
  · rw [hrest, hsame]

/-- White space of the first template is no token that the second scanner has to take. -/
theorem takes_white (h : Abreast s u) (htakes : Takes s t s') (ht : t.kind = .whitespace) :
    Abreast s' u := by
  obtain ⟨m, hsm, hum⟩ := h.modes_eq
  obtain ⟨m', hafter, hsm'⟩ := after_of_takes htakes hsm
  rw [ht] at hafter
  match m with
  | .outer => cases hafter
  | .inside d =>
    obtain rfl : Mode.inside d = m' := Option.some.inj hafter
    refine ⟨⟨.inside d, hsm', hum⟩, ?_⟩
    obtain ⟨v, hv, hsame⟩ := h.rest_eq
    obtain ⟨w, x, v', rfl, hw, hx, -, hv'⟩ := hv.cut htakes
    obtain rfl : x = t.text := by
      rcases hx with hx | ⟨y, hy, -⟩
      · exact hx
      · rw [ht] at hy
        cases hy
    -- what stands in front of the rest is all white space
    have hrec := htakes.recognize_inside hsm
    rw [ht] at hrec
    have hdrop : (w ++ (t.text ++ v')).dropWhile Text.isWhite = v'.dropWhile Text.isWhite := by
      rw [List.dropWhile_append_of_pos hw,
        List.dropWhile_append_of_pos (Token.isWhite_of_recognize hrec)]
    have hmode : s'.mode ≠ .outer := by
      rw [mode_of_stack hsm']
      nofun
    refine ⟨v', hv', .inr ⟨hmode, ?_⟩⟩
    rcases hsame with hsame | ⟨-, hsame⟩
    · rw [hsame, hdrop]
    · rw [hsame, hdrop]

/-- Any other token inside an expression is taken by both, perhaps in another spelling. -/
theorem takes_word (h : Abreast s u) (htakes : Takes s t s') (ht : t.kind ≠ .whitespace)
    {d : Delimiter} (hm : s.modes = (Mode.inside d).stack) :
    ∃ us t' u', Run u (us ++ [t']) u' ∧ (∀ t ∈ us, t.kind = .whitespace) ∧
      t'.kind = t.kind ∧ t'.sign = t.sign ∧ Abreast s' u' := by
  obtain ⟨us, u₁, v, hrun, hwhite, hum, hv, hrest⟩ := h.exists_run hm
  obtain ⟨m', hafter, hsm'⟩ := after_of_takes htakes hm
  obtain ⟨w, x, v', rfl, hw, hx, -, hv'⟩ := hv.cut htakes
  have hrec := htakes.recognize_inside hm
  rcases hx with rfl | ⟨y, hy, rfl⟩
  · have hrec' := Token.recognize_follows hrec ht hv'.follows
    rw [Text.dropWhile_append_of_stop hw (stops_isWhite_of_recognize hrec' ht)] at hrest
    have htakes' := takes_inside hum hrest hrec' hafter
    exact ⟨us, _, _, hrun.trans (.step (step_eq_some_iff.mpr htakes') (.refl _)), hwhite, rfl, rfl,
      ⟨m', hsm', rfl⟩, v', hv', .inl rfl⟩
  · have hends : EndsWord (' ' :: v') := ⟨v', .inl rfl⟩
    have hrec' := recognize_bare hy hends
    have hsign (x : Token) (hx : x.kind = t.kind) : x.sign = .bare t.kind :=
      Token.sign_eq_bare_iff.mpr ⟨hx, isBare_of_mem_spellings hy⟩
    have hspace : ∀ c ∈ w ++ [' '], Text.isWhite c = true :=
      List.forall_mem_append.mpr ⟨hw, List.forall_mem_singleton.mpr rfl⟩
    have hsplit : w ++ (' ' :: (y ++ [' ']) ++ v') = w ++ [' '] ++ (y ++ ' ' :: v') := by simp
    rw [hsplit, Text.dropWhile_append_of_stop hspace (stops_isWhite_of_recognize hrec' ht)] at hrest
    have htakes' := takes_inside hum hrest hrec' hafter
    refine ⟨us, _, _, hrun.trans (.step (step_eq_some_iff.mpr htakes') (.refl _)), hwhite, rfl,
      ?_, ⟨m', hsm', rfl⟩, v', hv', .inr ⟨?_, rfl⟩⟩
    · rw [hsign t rfl]
      exact hsign _ rfl
    · -- an operator does not close the expression
      rcases Mode.after_inside_eq_some hafter with ⟨hkind, -⟩ | ⟨-, rfl⟩
      · rw [hkind] at hy
        cases hy
      · rw [mode_of_stack hsm']
        nofun

/-- Outside expressions both scanners take the same token. -/
theorem takes_outer (h : Abreast s u) (htakes : Takes s t s') (hm : s.modes = Mode.outer.stack) :
    ∃ t' u', Takes u t' u' ∧ t'.kind = t.kind ∧ t'.sign = t.sign ∧ Abreast s' u' := by
  obtain ⟨m, hsm, hum⟩ := h.modes_eq
  obtain rfl : m = .outer := (mode_of_stack hsm).symm.trans (mode_of_stack hm)
  obtain ⟨m', hafter, hsm'⟩ := after_of_takes htakes hm
  obtain ⟨v, hv, hsame⟩ := h.rest_eq
  obtain ⟨w, x, v', rfl, -, -, hx, hv'⟩ := hv.cut htakes
  obtain ⟨rfl, rfl⟩ := hx (mode_of_stack hm)
  have hrest : u.rest = t.text ++ v' :=
    hsame.resolve_right fun hinside ↦ hinside.1 (mode_of_stack hm)
  -- it is enough that the second scanner recognizes the token
  have key (hrec : recognizeOuter u.offset u.rest = .ok (t.kind, t.text.length)) :
      ∃ t' u', Takes u t' u' ∧ t'.kind = t.kind ∧ t'.sign = t.sign ∧ Abreast s' u' :=
    ⟨⟨t.kind, t.text, u.mode, u.offset⟩, ⟨v', u.offset + Text.byteSize t.text, m'.stack⟩,
      ⟨htakes.text_ne_nil, hrest,
        fun c ↦ recognize_eq_ok_iff.mpr (.inl ⟨mode_of_stack hum, hrec⟩),
        shift_of_after hum hafter, rfl, rfl, rfl⟩,
      rfl, rfl, ⟨m', hsm', rfl⟩, v', hv', .inl rfl⟩
  refine key (recognizeOuter_eq_ok_iff.mpr ?_)
  rcases htakes.recognize_outer hm with ⟨d, ht, htext⟩ | ⟨ht, hends⟩
  · rw [htext] at hrest ⊢
    exact .inl ⟨d, delimiter?_eq_some_iff.mpr ⟨v', hrest⟩, ht, rfl⟩
  · obtain ⟨hbraces, hbehind⟩ := htakes.of_literal ht
    rw [ht] at hafter
    obtain rfl : Mode.outer = m' := Option.some.inj hafter
    refine .inr ?_
    rcases endsLiteral_of_edited hv' hsm' hbehind with rfl | hv''
    · rw [hrest, ← htakes.rest_eq]
      exact ⟨hends, ht, htakes.length_of_literal ht⟩
    · have hwidth := literalWidth_append hbraces hv'' 0
      refine ⟨?_, ht, by rw [hrest, hwidth, Nat.zero_add]⟩
      -- literal text that ended at once would have no width
      rw [hrest, Bool.eq_false_iff]
      intro htrue
      obtain ⟨c, w, htext⟩ := List.exists_cons_of_ne_nil htakes.text_ne_nil
      rw [htext, List.cons_append] at htrue hwidth
      rw [literalWidth, if_pos htrue, List.length_cons] at hwidth
      omega

end Abreast

/-- The signs of the tokens that are not white space. -/
def signsOf (ts : List Token) : List Sign := (ts.filter (·.kind ≠ .whitespace)).map Token.sign

theorem signsOf_append (ts us : List Token) : signsOf (ts ++ us) = signsOf ts ++ signsOf us := by
  rw [signsOf, List.filter_append, List.map_append]
  rfl

theorem signsOf_white {ts : List Token} (h : ∀ t ∈ ts, t.kind = .whitespace) : signsOf ts = [] := by
  have hnil : ts.filter (·.kind ≠ .whitespace) = [] :=
    List.filter_eq_nil_iff.mpr fun t ht ↦ by simpa using h t ht
  rw [signsOf, hnil]
  rfl

theorem signsOf_singleton {t t' : Token} (hkind : t'.kind = t.kind) (hsign : t'.sign = t.sign) :
    signsOf [t'] = signsOf [t] := by
  by_cases hwhite : t.kind = .whitespace <;> simp [signsOf, hkind, hsign, hwhite]

namespace Abreast

variable {s s' u : Scanner} {t : Token}

/-- **For every token of the first scanner the second one takes some with the same sign.** -/
theorem takes (h : Abreast s u) (htakes : Takes s t s') :
    ∃ us u', Run u us u' ∧ Abreast s' u' ∧ signsOf us = signsOf [t] := by
  obtain ⟨m, hm, -⟩ := h.modes_eq
  match m with
  | .outer =>
    obtain ⟨t', u', htakes', hkind, hsign, hnext⟩ := h.takes_outer htakes hm
    exact ⟨[t'], u', .step (step_eq_some_iff.mpr htakes') (.refl u'), hnext,
      signsOf_singleton hkind hsign⟩
  | .inside d =>
    by_cases ht : t.kind = .whitespace
    · refine ⟨[], u, .refl u, h.takes_white htakes ht, ?_⟩
      rw [signsOf_white (List.forall_mem_singleton.mpr ht)]
      rfl
    · obtain ⟨us, t', u', hrun, hwhite, hkind, hsign, hnext⟩ := h.takes_word htakes ht hm
      refine ⟨us ++ [t'], u', hrun, hnext, ?_⟩
      rw [signsOf_append, signsOf_white hwhite, List.nil_append, signsOf_singleton hkind hsign]

theorem run {ts : List Token} (h : Abreast s u) (hrun : Run s ts s') :
    ∃ us u', Run u us u' ∧ Abreast s' u' ∧ signsOf us = signsOf ts := by
  induction hrun generalizing u with
  | refl s => exact ⟨[], u, .refl u, h, rfl⟩
  | @step s s₁ s' t ts hstep _ ih =>
    obtain ⟨us, u₁, hus, hnext, hsigns⟩ := h.takes (step_eq_some_iff.mp hstep)
    obtain ⟨us', u', hus', hend, hsigns'⟩ := ih hnext
    refine ⟨us ++ us', u', hus.trans hus', hend, ?_⟩
    rw [signsOf_append, hsigns, hsigns', ← signsOf_append, List.singleton_append]

/-- Where the first scanner goes no further, the second one comes to the same text, with nothing but
white space before. -/
theorem of_idle (h : Abreast s u) (hidle : s.next.2 = s) :
    ∃ us u', Run u us u' ∧ (∀ t ∈ us, t.kind = .whitespace) ∧ u'.modes = s.modes ∧
      u'.rest = s.rest := by
  obtain ⟨m, hsm, hum⟩ := h.modes_eq
  match m with
  | .outer =>
    obtain ⟨v, hv, hsame⟩ := h.rest_eq
    obtain ⟨w, rfl, -, hw⟩ := hv.of_idle hidle
    obtain rfl := hw (mode_of_stack hsm)
    refine ⟨[], u, .refl u, List.forall_mem_nil _, hum.trans hsm.symm, ?_⟩
    exact hsame.resolve_right fun hinside ↦ hinside.1 (mode_of_stack hsm)
  | .inside d =>
    obtain ⟨us, u', v, hrun, hwhite, hum', hv, hrest⟩ := h.exists_run hsm
    obtain ⟨w, rfl, hw, -⟩ := hv.of_idle hidle
    refine ⟨us, u', hrun, hwhite, hum'.trans hsm.symm, ?_⟩
    rw [hrest, Text.dropWhile_append_of_stop hw (stops_isWhite_of_idle hsm hidle)]

end Abreast

theorem exists_step_error {s u : Scanner} {e : LexError} (h : s.step = .error e)
    (hrest : u.rest = s.rest) (hmodes : u.modes = s.modes) : ∃ e', u.step = .error e' := by
  rcases step_cases u with ⟨hnil, -⟩ | ⟨e', -, hstep⟩ | ⟨t, u', htakes, -⟩
  · rw [step_eq_none_iff.mpr (hrest.symm.trans hnil)] at h
    cases h
  · exact ⟨e', hstep⟩
  · rw [step_eq_some_iff.mpr (htakes.relocate hrest.symm hmodes.symm)] at h
    cases h

theorem abreast_ofText {input edited : Text} (h : Edited (ofText input) 0 input edited) :
    Abreast (ofText input) (ofText edited) :=
  ⟨⟨.outer, rfl, rfl⟩, edited, h, .inl rfl⟩

end Scanner

/-- **Edits change no sign.** The original template and the edited one have tokens with the same
signs, or none of them can be scanned. -/
theorem tokenize_edited {input edited : Text} (h : Edited (.ofText input) 0 input edited) :
    (∃ ts us, tokenize input = .ok ts ∧ tokenize edited = .ok us ∧
        us.map Token.sign = ts.map Token.sign) ∨
      ∃ e e', tokenize input = .error e ∧ tokenize edited = .error e' := by
  obtain ⟨ts, s, hrun, hend⟩ := Scanner.exists_run (.ofText input)
  obtain ⟨us, u, hrun', habreast, hsigns⟩ := (Scanner.abreast_ofText h).run hrun
  rcases hend with hrest | ⟨e, hstep⟩
  · have hidle : s.next.2 = s := by
      rw [Scanner.next_of_none (Scanner.step_eq_none_iff.mpr hrest)]
    obtain ⟨us', u', hrun'', hwhite, -, hrest'⟩ := habreast.of_idle hidle
    refine .inl ⟨_, _, Scanner.tokenize_of_run hrun hrest,
      Scanner.tokenize_of_run (hrun'.trans hrun'') (hrest'.trans hrest), ?_⟩
    change Scanner.signsOf (us ++ us') = Scanner.signsOf ts
    rw [Scanner.signsOf_append, Scanner.signsOf_white hwhite, List.append_nil, hsigns]
  · have hidle : s.next.2 = s := by rw [Scanner.next_of_error hstep]
    obtain ⟨us', u', hrun'', -, hmodes, hrest⟩ := habreast.of_idle hidle
    obtain ⟨e', hstep'⟩ := Scanner.exists_step_error hstep hrest hmodes
    exact .inr ⟨e, e', Scanner.tokenize_of_run_error hrun hstep,
      Scanner.tokenize_of_run_error (hrun'.trans hrun'') hstep'⟩

end Interpolation
