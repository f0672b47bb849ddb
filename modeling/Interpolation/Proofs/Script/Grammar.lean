import Interpolation.Proofs.Script.Lexeme

/-!
# The grammar of scripts

The expressions of a script, as a relation between lexemes and code. A conditional binds loosest and
groups to the right. The operators between two operands come in tiers and group to the left. Behind
them come the negation, the properties and calls, and the atoms, among which is every expression
between parentheses.

The levels that the printer asks for at the places of its text play no part here: the order of
binding is the order of the rules, and the tiers are a table of their own.
-/

namespace Interpolation.Script

/-- The words that are no names. -/
def reserved : List Text := ["true".toList, "false".toList]

/-- The operators between two operands. Those of one tier bind alike, and looser than those of the
tiers behind it. -/
def tiers : List (List Code.Op) :=
  [[.or], [.and], [.equal, .notEqual], [.greater, .less], [.add]]

/-- The function that is called by names with dots between them. -/
def dottedName (n : Text) (ns : List Text) : Text := n ++ ns.flatMap ('.' :: ·)

/-- The lexemes of names with a dot in front of each. -/
def dottedLexemes (ns : List Text) : List Lexeme := ns.flatMap fun n ↦ [.dot, .word n]

/-- The kinds of expressions, loosest first. -/
inductive Category where
  /-- Any expression. -/
  | expression
  /-- Operands with operators of the tiers between them. Where there are no tiers, a single operand,
  which is an access with any number of negations in front of it. -/
  | chain (tiers : List (List Code.Op))
  /-- An atom or a call, with any number of properties behind it. -/
  | access
  /-- A literal, a name, or an expression between parentheses. -/
  | atom

/-- **The grammar of expressions.** The lexemes are an expression of the category, and the code is
what they say. -/
inductive Derives : Category → List Lexeme → Code → Prop where
  | string {v} : Derives .atom [.string v] (.string v)
  | number {d} : Derives .atom [.digits d] (.number d)
  | true : Derives .atom [.word "true".toList] (.boolean true)
  | false : Derives .atom [.word "false".toList] (.boolean false)
  | name {n} : n ∉ reserved → Derives .atom [.word n] (.name n)
  | parentheses {ls c} : Derives .expression ls c →
      Derives .atom (.opening :: ls ++ [.closing]) c
  | ofAtom {ls c} : Derives .atom ls c → Derives .access ls c
  | property {ls c n} : Derives .access ls c →
      Derives .access (ls ++ [.dot, .word n]) (.property c n)
  | call {n ns} {arguments : List (List Lexeme × Code)} : n ∉ reserved →
      (∀ x ∈ arguments, Derives .expression x.1 x.2) →
      Derives .access
        (.word n :: dottedLexemes ns ++
          .opening :: [.comma].intercalate (arguments.map Prod.fst) ++ [.closing])
        (.call (dottedName n ns) (arguments.map Prod.snd))
  | ofAccess {ls c} : Derives .access ls c → Derives (.chain []) ls c
  | not {ls c} : Derives (.chain []) ls c → Derives (.chain []) (.bang :: ls) (.not c)
  | ofTighter {ops tighter ls c} : Derives (.chain tighter) ls c →
      Derives (.chain (ops :: tighter)) ls c
  | binary {op ops tighter ls ms c d} : op ∈ ops → Derives (.chain (ops :: tighter)) ls c →
      Derives (.chain tighter) ms d →
      Derives (.chain (ops :: tighter)) (ls ++ .op op :: ms) (.binary op c d)
  | ofChain {ls c} : Derives (.chain tiers) ls c → Derives .expression ls c
  | conditional {ls ms ns c d e} : Derives (.chain tiers) ls c → Derives .expression ms d →
      Derives .expression ns e →
      Derives .expression (ls ++ .question :: ms ++ .colon :: ns) (.conditional c d e)

/-- The text is a script that says the code. -/
def Reads (s : Text) (c : Code) : Prop := ∃ ls, Spells s ls ∧ Derives .expression ls c

/-- What is derived starts with a lexeme, which closes nothing. An atom or an access does not start
with a negation. -/
theorem Derives.exists_cons {K : Category} {ls : List Lexeme} {c : Code} (h : Derives K ls c) :
    ∃ l t, ls = l :: t ∧ l ≠ .closing ∧ (K = .access ∨ K = .atom → l ≠ .bang) := by
  induction h with
  | string | number | true | false | name | parentheses | call => simp
  | not => simp
  | ofAtom _ ih | property _ ih =>
    obtain ⟨l, t, rfl, hclosing, hbang⟩ := ih
    exact ⟨l, _, rfl, hclosing, fun _ ↦ hbang (by simp)⟩
  | ofAccess _ ih | ofTighter _ ih | binary _ _ _ ih _ | ofChain _ ih | conditional _ _ _ ih _ _ =>
    obtain ⟨l, t, rfl, hclosing, -⟩ := ih
    exact ⟨l, _, rfl, hclosing, by simp⟩

end Interpolation.Script
