import Interpolation.Proofs.Json.Lexeme

/-!
# Decoding JSON texts

The values that JSON texts stand for. The lexemes of a text are read from left to right, and the
arrays and objects that are open at a place are kept as frames, so a value of any depth is read
without recursion (`State.step`). What a state has read so far can be written down (`State.read`),
and every step adds its lexeme to it; this is why nothing but the lexemes of a value is accepted.
That these are accepted is an induction on the value, for any frames around it.

Whatever layout a value is written in, it is made of the same lexemes, as long as the layout puts
nothing but space between them (`Layout.Fills`). So all layouts decode to the value that was
written, and they differ in the space outside of strings only.
-/

namespace Interpolation.Json

open Text (Builder)

/-! ## Values as lexemes -/

/-- Induction on a value, with the assumption for all elements and for the values of all members. -/
@[elab_as_elim]
theorem treeInduction {motive : Json → Prop} (bool : ∀ b, motive (.bool b))
    (string : ∀ v, motive (.string v))
    (array : ∀ js : List Json, (∀ j ∈ js, motive j) → motive (.array js))
    (object : ∀ ms : List (Text × Json), (∀ m ∈ ms, motive m.2) → motive (.object ms)) :
    ∀ j, motive j
  | .bool b => bool b
  | .string v => string v
  | .array js => array js fun j _hj ↦ treeInduction bool string array object j
  | .object ms => object ms fun m _hm ↦ treeInduction bool string array object m.2
termination_by j => sizeOf j
decreasing_by
  · have := List.sizeOf_lt_of_mem _hj
    simp_wf
    omega
  · have := List.sizeOf_lt_of_mem _hm
    obtain ⟨name, j⟩ := m
    rw [Prod.mk.sizeOf_spec] at this
    simp_wf
    omega

mutual

/-- The lexemes of a value. -/
def lexemes : Json → List Lexeme
  | .bool b => [.bool b]
  | .string v => [.string v]
  | .array js => .openArray :: [.comma].intercalate (elementLexemes js) ++ [.closeArray]
  | .object ms => .openObject :: [.comma].intercalate (memberLexemes ms) ++ [.closeObject]

def elementLexemes : List Json → List (List Lexeme)
  | [] => []
  | j :: js => lexemes j :: elementLexemes js

def memberLexemes : List (Text × Json) → List (List Lexeme)
  | [] => []
  | (name, j) :: ms => (.string name :: .colon :: lexemes j) :: memberLexemes ms

end

def member (m : Text × Json) : List Lexeme := .string m.1 :: .colon :: m.2.lexemes

theorem elementLexemes_eq_map (js : List Json) : elementLexemes js = js.map lexemes := by
  induction js with
  | nil => rfl
  | cons j js ih => rw [elementLexemes, ih, List.map_cons]

theorem memberLexemes_eq_map (ms : List (Text × Json)) : memberLexemes ms = ms.map member := by
  induction ms with
  | nil => rfl
  | cons m ms ih =>
    rw [memberLexemes, ih]
    rfl

/-- The lexemes of some parts, with a comma behind each of them. -/
def listed {α : Type} (f : α → List Lexeme) (parts : List α) : List Lexeme :=
  parts.flatMap fun x ↦ f x ++ [.comma]

theorem listed_append_singleton {α : Type} (f : α → List Lexeme) (parts : List α) (x : α) :
    listed f (parts ++ [x]) = listed f parts ++ f x ++ [.comma] := by
  simp [listed]

theorem intercalate_eq_listed {α : Type} (f : α → List Lexeme) (parts : List α) (x : α) :
    [.comma].intercalate ((parts ++ [x]).map f) = listed f parts ++ f x := by
  induction parts with
  | nil => simp [listed]
  | cons y parts ih =>
    rw [List.cons_append, List.map_cons, List.intercalate_cons_of_ne_nil (by simp), ih]
    simp [listed]

theorem lexemes_array_append (before : List Json) (j : Json) :
    (array (before ++ [j])).lexemes =
      .openArray :: listed lexemes before ++ j.lexemes ++ [.closeArray] := by
  rw [lexemes, elementLexemes_eq_map, intercalate_eq_listed]
  simp

theorem lexemes_object_append (before : List (Text × Json)) (m : Text × Json) :
    (object (before ++ [m])).lexemes =
      .openObject :: listed member before ++ member m ++ [.closeObject] := by
  rw [lexemes, memberLexemes_eq_map, intercalate_eq_listed]
  simp

/-! ## Reading lexemes one by one -/

/-- An array or an object around the value that is being read. -/
inductive Frame where
  /-- An array, by the elements in front of the value. -/
  | array (before : List Json)
  /-- An object, by the members in front of the value and the name of the value. -/
  | object (before : List (Text × Json)) (name : Text)

/-- What has been read so far, by what comes next. The innermost of the frames stands first. -/
inductive State where
  /-- A value comes next. -/
  | value (frames : List Frame)
  /-- The first element of an array comes next, or the end of the array. -/
  | element (frames : List Frame)
  /-- The first member of an object comes next, or the end of the object. -/
  | member (frames : List Frame)
  /-- The name of another member comes next. -/
  | name (before : List (Text × Json)) (frames : List Frame)
  /-- The colon behind the name of a member comes next. -/
  | colon (before : List (Text × Json)) (name : Text) (frames : List Frame)
  /-- A value has been read, and what comes next concerns the frame around it. -/
  | behind (value : Json) (frames : List Frame)

namespace State

/-- Reads the first lexeme of a value. -/
def enter (frames : List Frame) : Lexeme → Option State
  | .bool b => some (.behind (.bool b) frames)
  | .string v => some (.behind (.string v) frames)
  | .openArray => some (.element frames)
  | .openObject => some (.member frames)
  | _ => none

def step : State → Lexeme → Option State
  | .value fs, l => enter fs l
  | .element fs, .closeArray => some (.behind (.array []) fs)
  | .element fs, l => enter (.array [] :: fs) l
  | .member fs, .closeObject => some (.behind (.object []) fs)
  | .member fs, .string n => some (.colon [] n fs)
  | .name before fs, .string n => some (.colon before n fs)
  | .colon before n fs, .colon => some (.value (.object before n :: fs))
  | .behind j (.array before :: fs), .comma => some (.value (.array (before ++ [j]) :: fs))
  | .behind j (.array before :: fs), .closeArray => some (.behind (.array (before ++ [j])) fs)
  | .behind j (.object before n :: fs), .comma => some (.name (before ++ [(n, j)]) fs)
  | .behind j (.object before n :: fs), .closeObject =>
    some (.behind (.object (before ++ [(n, j)])) fs)
  | _, _ => none

def run (st : State) (ls : List Lexeme) : Option State := ls.foldlM step st

end State

/-- The value that the lexemes stand for. -/
def decodeLexemes (ls : List Lexeme) : Option Json :=
  match State.run (.value []) ls with
  | some (.behind j []) => some j
  | _ => none

/-- **The value that a JSON text stands for**, if there is one. -/
def decode (s : Text) : Option Json := (lexemes? s).bind decodeLexemes

/-! ## Nothing else is accepted -/

/-- What has been read of the frame, up to the value in it. -/
def Frame.read : Frame → List Lexeme
  | .array before => .openArray :: listed lexemes before
  | .object before n => .openObject :: listed Json.member before ++ [.string n, .colon]

def Frame.readAll : List Frame → List Lexeme
  | [] => []
  | f :: fs => readAll fs ++ f.read

namespace State

def read : State → List Lexeme
  | .value fs => Frame.readAll fs
  | .element fs => Frame.readAll fs ++ [.openArray]
  | .member fs => Frame.readAll fs ++ [.openObject]
  | .name before fs => Frame.readAll fs ++ .openObject :: listed Json.member before
  | .colon before n fs =>
    Frame.readAll fs ++ .openObject :: listed Json.member before ++ [.string n]
  | .behind j fs => Frame.readAll fs ++ j.lexemes

theorem read_enter {fs : List Frame} {l : Lexeme} {st : State} (h : enter fs l = some st) :
    st.read = Frame.readAll fs ++ [l] := by
  revert h
  fun_cases enter fs l <;> rintro ⟨⟩ <;> rfl

theorem read_step {st st' : State} {l : Lexeme} (h : st.step l = some st') :
    st'.read = st.read ++ [l] := by
  revert h
  fun_cases step st l with
  | case1 fs l => exact read_enter
  | case2 fs =>
    rintro ⟨⟩
    simp [read, lexemes, elementLexemes]
  | case3 fs l hl =>
    intro h
    exact read_enter h
  | case4 fs =>
    rintro ⟨⟩
    simp [read, lexemes, memberLexemes]
  | case5 fs n =>
    rintro ⟨⟩
    simp [read, listed]
  | case6 before fs n =>
    rintro ⟨⟩
    simp [read]
  | case7 before n fs =>
    rintro ⟨⟩
    simp [read, Frame.readAll, Frame.read]
  | case8 j before fs =>
    rintro ⟨⟩
    simp [read, Frame.readAll, Frame.read, listed_append_singleton]
  | case9 j before fs =>
    rintro ⟨⟩
    simp [read, Frame.readAll, Frame.read, lexemes_array_append]
  | case10 j before n fs =>
    rintro ⟨⟩
    simp [read, Frame.readAll, Frame.read, listed_append_singleton, Json.member]
  | case11 j before n fs =>
    rintro ⟨⟩
    simp [read, Frame.readAll, Frame.read, lexemes_object_append, Json.member]
  | case12 => exact fun h ↦ by cases h

theorem read_run {st st' : State} {ls : List Lexeme} (h : st.run ls = some st') :
    st'.read = st.read ++ ls := by
  induction ls generalizing st with
  | nil =>
    cases h
    exact (List.append_nil _).symm
  | cons l ls ih =>
    obtain ⟨mid, hmid, hrun⟩ := Option.bind_eq_some_iff.mp (List.foldlM_cons.symm.trans h)
    rw [ih hrun, read_step hmid, List.append_assoc, List.singleton_append]

/-! ## Every value is accepted -/

theorem run_append (st : State) (ls ms : List Lexeme) :
    st.run (ls ++ ms) = (st.run ls).bind (run · ms) := List.foldlM_append

theorem run_cons (st : State) (l : Lexeme) (ls : List Lexeme) :
    st.run (l :: ls) = (st.step l).bind (run · ls) := List.foldlM_cons

/-- Where the end of an array may come next, a value is read like an element. -/
theorem run_element (fs : List Frame) (before : List Json) (j : Json) (ls : List Lexeme) :
    run (.element fs) (listed lexemes before ++ (j.lexemes ++ ls)) =
      run (.value (.array [] :: fs)) (listed lexemes before ++ (j.lexemes ++ ls)) := by
  have key : ∀ (j : Json) (ls : List Lexeme),
      run (.element fs) (j.lexemes ++ ls) = run (.value (.array [] :: fs)) (j.lexemes ++ ls) := by
    intro j ls
    cases j <;> rw [lexemes] <;> rfl
  cases before with
  | nil => exact key j ls
  | cons i before =>
    simp only [listed, List.flatMap_cons, List.append_assoc]
    exact key i _

/-- Where the end of an object may come next, a name is read like that of any member. -/
theorem run_member (fs : List Frame) (before : List (Text × Json)) (m : Text × Json)
    (ls : List Lexeme) :
    run (.member fs) (listed Json.member before ++ (Json.member m ++ ls)) =
      run (.name [] fs) (listed Json.member before ++ (Json.member m ++ ls)) := by
  cases before <;> rfl

/-- Parts with a comma behind each are read one by one, where each of them can be read behind any
others. -/
theorem run_listed {α : Type} {f : α → List Lexeme} {S : List α → State} {parts : List α}
    (h : ∀ x ∈ parts, ∀ before, run (S before) (f x ++ [.comma]) = some (S (before ++ [x])))
    (before : List α) : run (S before) (listed f parts) = some (S (before ++ parts)) := by
  induction parts generalizing before with
  | nil => simp [listed, run]
  | cons x parts ih =>
    rw [listed, List.flatMap_cons, run_append, h x List.mem_cons_self before, Option.bind_some,
      ← listed, ih fun y hy ↦ h y (List.mem_cons_of_mem x hy)]
    simp

/-- **A value is read from its lexemes, whatever is around it.** -/
theorem run_lexemes (j : Json) (fs : List Frame) :
    run (.value fs) j.lexemes = some (.behind j fs) := by
  induction j using treeInduction generalizing fs with
  | bool b => rfl
  | string v => rfl
  | array js ih =>
    rcases js.eq_nil_or_concat with rfl | ⟨before, j, rfl⟩
    · rfl
    · rw [List.concat_eq_append] at ih ⊢
      have hbefore : ∀ i ∈ before, ∀ done,
          run (.value (.array done :: fs)) (i.lexemes ++ [.comma]) =
            some (.value (.array (done ++ [i]) :: fs)) := by
        intro i hi done
        rw [run_append, ih i (List.mem_append_left _ hi)]
        rfl
      rw [lexemes_array_append, List.append_assoc, List.cons_append, run_cons]
      change run (.element fs) _ = _
      rw [run_element, run_append, run_listed (S := fun done ↦ .value (.array done :: fs)) hbefore,
        Option.bind_some, run_append, ih j (by simp)]
      rfl
  | object ms ih =>
    rcases ms.eq_nil_or_concat with rfl | ⟨before, m, rfl⟩
    · rfl
    · rw [List.concat_eq_append] at ih ⊢
      have hmember : ∀ x ∈ before ++ [m], ∀ done,
          run (.name done fs) (Json.member x) = some (.behind x.2 (.object done x.1 :: fs)) := by
        intro x hx done
        exact ih x hx (.object done x.1 :: fs)
      have hbefore : ∀ x ∈ before, ∀ done,
          run (.name done fs) (Json.member x ++ [.comma]) = some (.name (done ++ [x]) fs) := by
        intro x hx done
        rw [run_append, hmember x (List.mem_append_left _ hx)]
        rfl
      rw [lexemes_object_append, List.append_assoc, List.cons_append, run_cons]
      change run (.member fs) _ = _
      rw [run_member, run_append, run_listed (S := fun done ↦ .name done fs) hbefore,
        Option.bind_some, run_append, hmember m (by simp)]
      rfl

end State

/-- **The lexemes that stand for a value are its own.** -/
theorem decodeLexemes_eq_some_iff {ls : List Lexeme} {j : Json} :
    decodeLexemes ls = some j ↔ ls = j.lexemes := by
  constructor
  · intro h
    unfold decodeLexemes at h
    split at h
    next j' hrun =>
      cases h
      exact (State.read_run hrun).symm
    next => cases h
  · rintro rfl
    rw [decodeLexemes, State.run_lexemes]

theorem decode_eq_some_iff {s : Text} {j : Json} :
    decode s = some j ↔ lexemes? s = some j.lexemes := by
  rw [decode, Option.bind_eq_some_iff]
  constructor
  · rintro ⟨ls, hls, h⟩
    rw [hls, decodeLexemes_eq_some_iff.mp h]
  · exact fun h ↦ ⟨_, h, decodeLexemes_eq_some_iff.mpr rfl⟩

/-! ## What a layout writes -/

/-- The layout puts nothing but characters with the property between lexemes. -/
structure Layout.Fills (l : Layout) (p : Char → Bool) : Prop where
  lineBreak : ∀ depth, Spaced p [] (l.lineBreak depth)
  colon : Spaced p [.colon] l.colon

theorem Layout.compact_fills (p : Char → Bool) : Layout.compact.Fills p :=
  ⟨fun _ ↦ .nil, .single .colon⟩

theorem Layout.pretty_fills : Layout.pretty.Fills isBlank where
  lineBreak depth := .blank rfl (.blanks fun c hc ↦ by rw [List.eq_of_mem_replicate hc]; rfl)
  colon := .lexeme (.blank rfl .nil)

theorem writeElements_eq_map (l : Layout) (depth : Nat) (js : List Json) :
    writeElements l depth js = js.map (write l depth) := by
  induction js with
  | nil => rfl
  | cons j js ih => rw [writeElements, ih, List.map_cons]

theorem writeMembers_eq_map (l : Layout) (depth : Nat) (ms : List (Text × Json)) :
    writeMembers l depth ms =
      ms.map fun m ↦ .ofText (quote m.1 ++ l.colon) ++ write l depth m.2 := by
  induction ms with
  | nil => rfl
  | cons m ms ih =>
    rw [writeMembers, ih]
    rfl

section

variable {l : Layout} {p : Char → Bool} {α : Type} {f : α → List Lexeme} {w : α → Builder}
  {parts : List α}

theorem spaced_separated {separator : Text} (hseparator : Spaced p [.comma] separator)
    (h : ∀ x ∈ parts, Spaced p (f x) (w x).toText) :
    Spaced p ([.comma].intercalate (parts.map f))
      (Builder.separated separator (parts.map w)).toText := by
  rw [Builder.toText_separated, List.map_map]
  induction parts with
  | nil => exact .nil
  | cons x parts ih =>
    rw [List.forall_mem_cons] at h
    cases parts with
    | nil => simpa using h.1
    | cons y parts =>
      simp only [List.map_cons, List.intercalate_cons_cons]
      exact (h.1.append hseparator).append (ih h.2)

theorem spaced_enclose (hl : l.Fills p) (depth : Nat) {left right : Char} {a b : Lexeme}
    (ha : a.spelling = [left]) (hb : b.spelling = [right])
    (h : ∀ x ∈ parts, Spaced p (f x) (w x).toText) :
    Spaced p (a :: [.comma].intercalate (parts.map f) ++ [b])
      (l.enclose depth left right (parts.map w)).toText := by
  have hleft (s : Text) (hs : Spaced p [] s) : Spaced p [a] (left :: s) := by
    have h : Spaced p [a] (a.spelling ++ s) := .lexeme hs
    rwa [ha] at h
  have hright : Spaced p [b] [right] := hb ▸ .single b
  cases parts with
  | nil => exact (hleft [] .nil).append hright
  | cons x parts =>
    have hseparator : Spaced p [.comma] (',' :: l.lineBreak (depth + 1)) :=
      .lexeme (hl.lineBreak (depth + 1))
    have hparts := spaced_separated hseparator h
    rw [List.map_cons, Layout.enclose, ← List.map_cons, Builder.toText_append,
      Builder.toText_append, Builder.toText_ofText, Builder.toText_ofText]
    · exact ((hleft _ (hl.lineBreak (depth + 1))).append hparts).append
        ((hl.lineBreak depth).append hright)
    · simp

end

/-- **A value is written by its lexemes**, with nothing but space of the layout between them. -/
theorem spaced_write {l : Layout} {p : Char → Bool} (hl : l.Fills p) (j : Json) (depth : Nat) :
    Spaced p j.lexemes (j.write l depth).toText := by
  induction j using treeInduction generalizing depth with
  | bool b =>
    cases b with
    | true => exact .single (.bool true)
    | false => exact .single (.bool false)
  | string v =>
    rw [write, Builder.toText_ofText]
    exact .single (.string v)
  | array js ih =>
    rw [lexemes, elementLexemes_eq_map, write, writeElements_eq_map]
    exact spaced_enclose hl depth rfl rfl fun j hj ↦ ih j hj (depth + 1)
  | object ms ih =>
    rw [lexemes, memberLexemes_eq_map, write, writeMembers_eq_map]
    refine spaced_enclose hl depth rfl rfl fun m hm ↦ ?_
    rw [Builder.toText_append, Builder.toText_ofText]
    exact (Spaced.lexeme (l := .string m.1) hl.colon).append (ih m hm (depth + 1))

/-! ## Both layouts -/

theorem compact_eq_flatMap_spelling (j : Json) :
    j.compact = j.lexemes.flatMap Lexeme.spelling :=
  (spaced_write (Layout.compact_fills fun _ ↦ false) j 0).eq_flatMap_spelling

theorem decode_pretty (j : Json) : decode j.pretty = some j :=
  decode_eq_some_iff.mpr (lexemes?_of_spaced (spaced_write Layout.pretty_fills j 0))

theorem decode_compact (j : Json) : decode j.compact = some j :=
  decode_eq_some_iff.mpr (lexemes?_of_spaced (spaced_write (Layout.compact_fills isBlank) j 0))

theorem dropBlanks_pretty (j : Json) : dropBlanks j.pretty = j.compact := by
  rw [compact_eq_flatMap_spelling]
  exact dropBlanks_of_spaced (spaced_write Layout.pretty_fills j 0)

end Interpolation.Json
