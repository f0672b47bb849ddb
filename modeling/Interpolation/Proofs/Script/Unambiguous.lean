import Interpolation.Proofs.Script.Grammar

/-!
# Scripts have one meaning

The rules of the grammar recurse on the left, so that two derivations of the same lexemes cannot be
compared rule by rule. They are compared with a reader instead, which goes through the lexemes once
from left to right. Where a rule recurses on the left the reader has a loop, and what a derivation
says about the reader is said with all that the loop may still do: reading the lexemes of the code
`c`, and then `rest`, is to go on with the loop from `c` at `rest`.

All that is asked of the reader is that it finds what is derived; that it finds nothing else plays
no part in the comparison.
-/

namespace Interpolation.Script

/-- A way to read code from the front of some lexemes, with what is left of them. -/
abbrev Reader := List Lexeme → Option (Code × List Lexeme)

namespace Reader

/-! ## The reader

Every reader but the last takes a reader `inner` for the expressions between parentheses, the
arguments of calls and the branches of conditionals. -/

/-- The names with a dot in front of them, and what is left behind the last one. -/
def properties : List Lexeme → List Text × List Lexeme
  | .dot :: .word n :: ls => (n :: (properties ls).1, (properties ls).2)
  | ls => ([], ls)

def ofWord (w : Text) : Code :=
  if w = "true".toList then .boolean true
  else if w = "false".toList then .boolean false
  else .name w

def atom (inner : Reader) : Reader
  | .string v :: ls => some (.string v, ls)
  | .digits d :: ls => some (.number d, ls)
  | .word w :: ls => some (ofWord w, ls)
  | .opening :: ls => (inner ls).bind fun
    | (c, .closing :: rest) => some (c, rest)
    | _ => none
  | _ => none

/-- The name of a function that is called, and what is left behind the parenthesis after it. -/
def callee? : List Lexeme → Option (Text × List Lexeme)
  | .word n :: ls =>
    match (properties ls).2 with
    | .opening :: rest => some (dottedName n (properties ls).1, rest)
    | _ => none
  | _ => none

/-- Reads at most `n` arguments, and the parenthesis behind them. -/
def arguments (inner : Reader) : Nat → List Lexeme → Option (List Code × List Lexeme)
  | 0, _ => none
  | n + 1, ls => (inner ls).bind fun
    | (c, .closing :: rest) => some ([c], rest)
    | (c, .comma :: rest) => (arguments inner n rest).map (Prod.map (c :: ·) id)
    | _ => none

/-- Reads the arguments of a call, if there are any, and the parenthesis behind them. -/
def argumentList (inner : Reader) (ls : List Lexeme) : Option (List Code × List Lexeme) :=
  match ls with
  | .closing :: rest => some ([], rest)
  | ls => arguments inner ls.length ls

/-- Reads the properties of the code `c`. -/
def withProperties (c : Code) (ls : List Lexeme) : Code × List Lexeme :=
  ((properties ls).1.foldl .property c, (properties ls).2)

/-- Reads a call or an atom, and the properties behind it. -/
def access (inner : Reader) (ls : List Lexeme) : Option (Code × List Lexeme) :=
  match callee? ls with
  | some (f, rest) => (argumentList inner rest).map fun x ↦ withProperties (.call f x.1) x.2
  | none => (atom inner ls).map fun x ↦ withProperties x.1 x.2

/-- Reads an access with the negations in front of it. -/
def unary (inner : Reader) : Reader
  | .bang :: ls => (unary inner ls).map (Prod.map .not id)
  | ls => access inner ls

/-- Goes on with at most `n` operators of the tier and their right operands, from the left operand
`c`. -/
def chainFrom (ops : List Code.Op) (operand : Reader) : Nat → Code → Reader
  | n + 1, c, .op op :: ls =>
    if op ∈ ops then (operand ls).bind fun x ↦ chainFrom ops operand n (.binary op c x.1) x.2
    else some (c, .op op :: ls)
  | _, c, ls => some (c, ls)

/-- Reads operands with operators of the tiers between them. -/
def chain (inner : Reader) : List (List Code.Op) → Reader
  | [] => unary inner
  | ops :: tiers => fun ls ↦
    (chain inner tiers ls).bind fun x ↦ chainFrom ops (chain inner tiers) x.2.length x.1 x.2

/-- Reads a conditional, or what may stand as the test of one. -/
def conditional (inner : Reader) (ls : List Lexeme) : Option (Code × List Lexeme) :=
  (chain inner tiers ls).bind fun
    | (c, .question :: rest) => (inner rest).bind fun
      | (d, .colon :: rest) => (inner rest).map (Prod.map (.conditional c d) id)
      | _ => none
    | (c, rest) => some (c, rest)

/-- Reads an expression with at most `n` levels. -/
def expression : Nat → Reader
  | 0 => fun _ ↦ none
  | n + 1 => conditional (expression n)

/-! ## What follows -/

/-- No expression goes on with the lexemes. -/
def Closes (rest : List Lexeme) : Prop :=
  ∀ l ∈ rest.head?, l = .closing ∨ l = .comma ∨ l = .colon

/-- No property and no call goes on with the lexemes. -/
def Settled (rest : List Lexeme) : Prop := ∀ l ∈ rest.head?, l ≠ .dot ∧ l ≠ .opening

/-- No operator of the tiers goes on with the lexemes. -/
def NoOp (ops : List Code.Op) (rest : List Lexeme) : Prop := ∀ op ∈ ops, rest.head? ≠ some (.op op)

theorem Closes.settled {rest : List Lexeme} (h : Closes rest) : Settled rest := by
  intro l hl
  rcases h l hl with rfl | rfl | rfl <;> simp

theorem Closes.noOp {rest : List Lexeme} (h : Closes rest) (ops : List Code.Op) :
    NoOp ops rest := by
  intro op _ hhead
  simpa using h _ hhead

/-! ## Properties -/

theorem properties_of_ne_dot {rest : List Lexeme} (h : rest.head? ≠ some .dot) :
    properties rest = ([], rest) := by
  rw [properties]
  rintro n ls rfl
  simp at h

theorem properties_dottedLexemes (ns : List Text) {rest : List Lexeme}
    (h : rest.head? ≠ some .dot) : properties (dottedLexemes ns ++ rest) = (ns, rest) := by
  induction ns with
  | nil => exact properties_of_ne_dot h
  | cons n ns ih =>
    have hcons : dottedLexemes (n :: ns) ++ rest = .dot :: .word n :: (dottedLexemes ns ++ rest) :=
      rfl
    rw [hcons, properties, ih]

theorem withProperties_of_settled (c : Code) {rest : List Lexeme} (h : Settled rest) :
    withProperties c rest = (c, rest) := by
  have hdot : rest.head? ≠ some .dot := fun hd ↦ (h _ hd).1 rfl
  rw [withProperties, properties_of_ne_dot hdot]
  rfl

theorem Settled.properties {rest : List Lexeme} (h : Settled rest) :
    (properties rest).2.head? ≠ some .opening := by
  have hdot : rest.head? ≠ some .dot := fun hd ↦ (h _ hd).1 rfl
  rw [properties_of_ne_dot hdot]
  exact fun ho ↦ (h _ ho).2 rfl

theorem ofWord_of_notMem {n : Text} (h : n ∉ reserved) : ofWord n = .name n := by
  simp only [reserved, List.mem_cons, List.not_mem_nil, or_false, not_or] at h
  rw [ofWord, if_neg h.1, if_neg h.2]

theorem callee?_word (n : Text) {rest : List Lexeme}
    (h : (properties rest).2.head? ≠ some .opening) : callee? (.word n :: rest) = none := by
  rw [callee?]
  split
  · simp_all
  · rfl

theorem length_le_length_intercalate (x : List Lexeme) (xs : List (List Lexeme)) :
    xs.length ≤ ([.comma].intercalate (x :: xs)).length := by
  induction xs generalizing x with
  | nil => simp
  | cons y ys ih =>
    have := ih y
    rw [List.intercalate_cons_cons]
    simp only [List.length_append, List.length_cons]
    omega

theorem length_le_of_mem {x : List Lexeme} {xs : List (List Lexeme)} (hx : x ∈ xs) :
    x.length ≤ ([.comma].intercalate xs).length := by
  induction xs with
  | nil => cases hx
  | cons y ys ih =>
    cases ys with
    | nil => simp_all
    | cons z zs =>
      rw [List.intercalate_cons_cons, List.length_append, List.length_append]
      rcases List.mem_cons.mp hx with rfl | hx
      · omega
      · have := ih hx
        omega

/-! ## Readers read what is derived -/

/-- The reader reads the expressions of at most `n` lexemes. -/
def Complete (inner : Reader) (n : Nat) : Prop :=
  ∀ {ls c}, Derives .expression ls c → ls.length ≤ n → ∀ {rest}, Closes rest →
    inner (ls ++ rest) = some (c, rest)

section

variable {inner : Reader} {n : Nat} (hinner : Complete inner n)

include hinner

theorem atom_parentheses {ls : List Lexeme} {c : Code} (h : Derives .expression ls c)
    (hn : ls.length ≤ n) (rest : List Lexeme) :
    atom inner (.opening :: ls ++ [.closing] ++ rest) = some (c, rest) := by
  have hread : inner (ls ++ .closing :: rest) = some (c, .closing :: rest) :=
    hinner h hn (by simp [Closes])
  simp [atom, hread]

theorem arguments_intercalate {x : List Lexeme × Code} {xs : List (List Lexeme × Code)}
    (hxs : ∀ y ∈ x :: xs, Derives .expression y.1 y.2 ∧ y.1.length ≤ n) (rest : List Lexeme)
    {m : Nat} (hm : xs.length < m) :
    arguments inner m ([.comma].intercalate ((x :: xs).map Prod.fst) ++ .closing :: rest) =
      some ((x :: xs).map Prod.snd, rest) := by
  obtain ⟨m, rfl⟩ : ∃ k, m = k + 1 := ⟨m - 1, by omega⟩
  induction xs generalizing x m with
  | nil =>
    have hread : inner (x.1 ++ .closing :: rest) = some (x.2, .closing :: rest) :=
      hinner (hxs x (by simp)).1 (hxs x (by simp)).2 (by simp [Closes])
    simp [arguments, hread]
  | cons y ys ih =>
    rw [List.length_cons] at hm
    obtain ⟨m, rfl⟩ : ∃ k, m = k + 1 := ⟨m - 1, by omega⟩
    have hread (r : List Lexeme) : inner (x.1 ++ .comma :: r) = some (x.2, .comma :: r) :=
      hinner (hxs x (by simp)).1 (hxs x (by simp)).2 (by simp [Closes])
    have htail := ih (fun z hz ↦ hxs z (List.mem_cons_of_mem _ hz)) m (by omega)
    simp only [List.map_cons] at htail ⊢
    rw [List.intercalate_cons_cons, arguments]
    simp [hread, htail]

theorem argumentList_intercalate {xs : List (List Lexeme × Code)}
    (hxs : ∀ y ∈ xs, Derives .expression y.1 y.2 ∧ y.1.length ≤ n) (rest : List Lexeme) :
    argumentList inner ([.comma].intercalate (xs.map Prod.fst) ++ .closing :: rest) =
      some (xs.map Prod.snd, rest) := by
  cases xs with
  | nil => rfl
  | cons x xs =>
    -- The first argument does not start with a parenthesis that closes the list at once.
    obtain ⟨l, t, hl, hclosing, -⟩ := (hxs x List.mem_cons_self).1.exists_cons
    have hlength := length_le_length_intercalate x.1 (xs.map Prod.fst)
    rw [List.length_map] at hlength
    rw [argumentList, arguments_intercalate hinner hxs rest]
    · rw [List.length_append, List.length_cons, List.map_cons]
      omega
    · intro r hr
      cases xs <;> simp_all

theorem access_call {m : Text} {ns : List Text} {xs : List (List Lexeme × Code)}
    (hxs : ∀ x ∈ xs, Derives .expression x.1 x.2 ∧ x.1.length ≤ n) (rest : List Lexeme) :
    access inner (.word m :: dottedLexemes ns ++
        .opening :: [.comma].intercalate (xs.map Prod.fst) ++ [.closing] ++ rest) =
      some (withProperties (.call (dottedName m ns) (xs.map Prod.snd)) rest) := by
  have hcallee (r : List Lexeme) :
      callee? (.word m :: (dottedLexemes ns ++ .opening :: r)) = some (dottedName m ns, r) := by
    rw [callee?, properties_dottedLexemes ns (by simp)]
  have hread := argumentList_intercalate hinner hxs rest
  simp [access, hcallee, hread]

end

/-! ## What a derivation says about the reader -/

/-- What it is to read the lexemes `ls` of the code `c`, and then go on. -/
def Finds (inner : Reader) (ls : List Lexeme) (c : Code) : Category → Prop
  | .atom => ∀ rest, (properties rest).2.head? ≠ some .opening →
      callee? (ls ++ rest) = none ∧ atom inner (ls ++ rest) = some (c, rest)
  | .access => ∀ rest, (properties rest).2.head? ≠ some .opening →
      access inner (ls ++ rest) = some (withProperties c rest)
  | .chain [] => ∀ rest, Settled rest → unary inner (ls ++ rest) = some (c, rest)
  | .chain (ops :: tiers) => (ops :: tiers).flatten.Nodup → ∀ rest, Settled rest →
      NoOp tiers.flatten rest → ∃ n ≥ rest.length,
        chain inner (ops :: tiers) (ls ++ rest) = chainFrom ops (chain inner tiers) n c rest
  | .expression => ∀ rest, Closes rest → conditional inner (ls ++ rest) = some (c, rest)

theorem chainFrom_of_noOp {ops : List Code.Op} {operand : Reader} {n : Nat} {c : Code}
    {rest : List Lexeme} (h : NoOp ops rest) : chainFrom ops operand n c rest = some (c, rest) := by
  unfold chainFrom
  split
  next op ls => rw [if_neg fun hop ↦ h op hop rfl]
  next => rfl

namespace Finds

variable {inner : Reader} {ls ms : List Lexeme} {c d : Code} {ops : List Code.Op}
  {tiers : List (List Code.Op)}

theorem ofAtom (h : Finds inner ls c .atom) : Finds inner ls c .access := by
  intro rest hrest
  obtain ⟨hcallee, hatom⟩ := h rest hrest
  rw [access, hcallee, hatom]
  rfl

theorem property (h : Finds inner ls c .access) (n : Text) :
    Finds inner (ls ++ [.dot, .word n]) (.property c n) .access := by
  intro rest hrest
  rw [List.append_assoc]
  exact h (.dot :: .word n :: rest) hrest

theorem ofAccess (h : Finds inner ls c .access) (hls : ls.head? ≠ some .bang) (hne : ls ≠ []) :
    Finds inner ls c (.chain []) := by
  intro rest hrest
  obtain ⟨l, t, rfl⟩ := List.exists_cons_of_ne_nil hne
  have hunary : unary inner (l :: t ++ rest) = access inner (l :: t ++ rest) := by
    rw [List.cons_append, unary]
    rintro _ ⟨⟩
    exact hls rfl
  rw [hunary, h rest hrest.properties, withProperties_of_settled c hrest]

theorem not (h : Finds inner ls c (.chain [])) :
    Finds inner (.bang :: ls) (.not c) (.chain []) := by
  intro rest hrest
  rw [List.cons_append, unary, h rest hrest]
  rfl

theorem chain_eq (h : Finds inner ls c (.chain tiers)) (htiers : tiers.flatten.Nodup)
    {rest : List Lexeme} (hrest : Settled rest) (hop : NoOp tiers.flatten rest) :
    chain inner tiers (ls ++ rest) = some (c, rest) := by
  cases tiers with
  | nil => exact h rest hrest
  | cons ops tiers =>
    rw [List.flatten_cons] at hop
    have hops : NoOp ops rest := fun op hmem ↦ hop op (List.mem_append_left _ hmem)
    have htail : NoOp tiers.flatten rest := fun op hmem ↦ hop op (List.mem_append_right _ hmem)
    obtain ⟨n, -, hn⟩ := h htiers rest hrest htail
    rw [hn, chainFrom_of_noOp hops]

theorem ofTighter (h : Finds inner ls c (.chain tiers)) :
    Finds inner ls c (.chain (ops :: tiers)) := by
  intro hnodup rest hrest hop
  rw [List.flatten_cons] at hnodup
  have hread := h.chain_eq (List.nodup_append.mp hnodup).2.1 hrest hop
  exact ⟨rest.length, Nat.le_refl _, by simp [chain, hread]⟩

theorem binary {op : Code.Op} (hop : op ∈ ops) (hc : Finds inner ls c (.chain (ops :: tiers)))
    (hd : Finds inner ms d (.chain tiers)) :
    Finds inner (ls ++ .op op :: ms) (.binary op c d) (.chain (ops :: tiers)) := by
  intro hnodup rest hrest hnoop
  obtain ⟨-, htiers, hdisjoint⟩ := List.nodup_append.mp hnodup
  -- The loop that has read the left operand stands before the operator, and takes it.
  have hbefore : NoOp tiers.flatten (.op op :: (ms ++ rest)) := by
    rintro p hp ⟨⟩
    exact hdisjoint op hop op hp rfl
  obtain ⟨n, hn, hleft⟩ := hc hnodup (.op op :: (ms ++ rest)) (by simp [Settled]) hbefore
  obtain ⟨n, rfl⟩ : ∃ k, n = k + 1 := ⟨n - 1, by simp at hn; omega⟩
  refine ⟨n, by simp at hn; omega, ?_⟩
  rw [List.append_assoc, List.cons_append, hleft, chainFrom, if_pos hop,
    hd.chain_eq htiers hrest hnoop]
  rfl

theorem ofChain (h : Finds inner ls c (.chain Script.tiers)) : Finds inner ls c .expression := by
  intro rest hrest
  rw [conditional, h.chain_eq (by decide) hrest.settled (hrest.noOp _)]
  cases rest with
  | nil => rfl
  | cons l rest => rcases hrest l rfl with rfl | rfl | rfl <;> rfl

theorem conditional {n : Nat} (hinner : Complete inner n) {ns : List Lexeme} {e : Code}
    (hc : Finds inner ls c (.chain Script.tiers)) (hd : Derives .expression ms d)
    (hms : ms.length ≤ n) (he : Derives .expression ns e) (hns : ns.length ≤ n) :
    Finds inner (ls ++ .question :: ms ++ .colon :: ns) (.conditional c d e) .expression := by
  intro rest hrest
  have htest : chain inner Script.tiers (ls ++ .question :: (ms ++ .colon :: (ns ++ rest))) =
      some (c, .question :: (ms ++ .colon :: (ns ++ rest))) :=
    hc.chain_eq (by decide) (by simp [Settled]) (by simp [NoOp])
  have hconsequent : inner (ms ++ .colon :: (ns ++ rest)) = some (d, .colon :: (ns ++ rest)) :=
    hinner hd hms (by simp [Closes])
  have halternate : inner (ns ++ rest) = some (e, rest) := hinner he hns hrest
  simp [Reader.conditional, htest, hconsequent, halternate]

end Finds

theorem finds_of_derives {inner : Reader} {n : Nat} (hinner : Complete inner n) {K : Category}
    {ls : List Lexeme} {c : Code} (h : Derives K ls c) (hn : ls.length ≤ n + 1) :
    Finds inner ls c K := by
  -- The induction stays within one level: what is read by `inner` comes from `hinner`.
  induction h with
  | string | number => exact fun rest _ ↦ ⟨rfl, rfl⟩
  | true | false => exact fun rest hrest ↦ ⟨callee?_word _ hrest, rfl⟩
  | name hname =>
    exact fun rest hrest ↦ ⟨callee?_word _ hrest, by simp [atom, ofWord_of_notMem hname]⟩
  | parentheses h =>
    simp only [List.length_cons, List.length_append] at hn
    exact fun rest _ ↦ ⟨rfl, atom_parentheses hinner h (by omega) rest⟩
  | ofAtom _ ih => exact (ih hn).ofAtom
  | property _ ih =>
    simp only [List.length_append] at hn
    exact (ih (by omega)).property _
  | @call m ns xs _ hxs =>
    simp only [List.length_cons, List.length_append, List.length_nil] at hn
    refine fun rest _ ↦ access_call hinner (fun x hx ↦ ⟨hxs x hx, ?_⟩) rest
    have := length_le_of_mem (List.mem_map_of_mem (f := Prod.fst) hx)
    omega
  | ofAccess h ih =>
    obtain ⟨l, t, rfl, -, hbang⟩ := h.exists_cons
    exact (ih hn).ofAccess (by simpa using hbang) (by simp)
  | not _ ih =>
    simp only [List.length_cons] at hn
    exact (ih (by omega)).not
  | ofTighter _ ih => exact (ih hn).ofTighter
  | binary hop _ _ ihleft ihright =>
    simp only [List.length_append, List.length_cons] at hn
    exact (ihleft (by omega)).binary hop (ihright (by omega))
  | ofChain _ ih => exact (ih hn).ofChain
  | conditional _ hd he ih _ _ =>
    simp only [List.length_append, List.length_cons] at hn
    exact (ih (by omega)).conditional hinner hd (by omega) he (by omega)

theorem complete_expression (n : Nat) : Complete (expression n) n := by
  induction n with
  | zero =>
    intro ls c h hn
    obtain ⟨l, t, rfl, -⟩ := h.exists_cons
    simp at hn
  | succ n ih =>
    intro ls c h hn rest hrest
    exact finds_of_derives ih h hn rest hrest

end Reader

/-- **The grammar is not ambiguous.** -/
theorem Derives.unique {ls : List Lexeme} {c d : Code} (hc : Derives .expression ls c)
    (hd : Derives .expression ls d) : c = d := by
  have hnil : Reader.Closes [] := by simp [Reader.Closes]
  have hreadc := Reader.complete_expression ls.length hc (Nat.le_refl _) hnil
  have hreadd := Reader.complete_expression ls.length hd (Nat.le_refl _) hnil
  simpa using hreadc.symm.trans hreadd

/-- **A script says one thing only.** -/
theorem Reads.unique {s : Text} {c d : Code} (hc : Reads s c) (hd : Reads s d) : c = d := by
  obtain ⟨ls, hls, hc⟩ := hc
  obtain ⟨ms, hms, hd⟩ := hd
  obtain rfl := hls.unique hms
  exact hc.unique hd

end Interpolation.Script
