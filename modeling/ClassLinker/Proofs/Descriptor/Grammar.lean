import Mathlib.Tactic.Common
import ClassLinker.Descriptor.MethodType

/-! The grammar of descriptors. A field type is written as brackets before a letter or a class name
that ends at the first semicolon, so no field type is the start of another one and a method descriptor
can be cut into field types in one way only. Reading accepts what the grammar describes, and nothing
else. -/

namespace ClassLinker

/-- Brackets, and then the letter of a primitive type or a class name between `L` and `;`. -/
def IsFieldType (t : Text) : Prop :=
  ∃ dimensions base, t = List.replicate dimensions (Text.byte '[') ++ base ∧
    ((∃ letter ∈ ("BCDFIJSZ" : Text), base = [letter]) ∨
      ∃ name, Text.byte ';' ∉ name ∧ base = Text.byte 'L' :: (name ++ [Text.byte ';']))

/-- A method descriptor cut into the field types of its parameters and its result, where `V` stands
for no result. -/
structure IsMethodType (d : Text) (params : List Text) (result : Text) : Prop where
  text_eq : d = Text.byte '(' :: (params.flatten ++ Text.byte ')' :: result)
  params : ∀ p ∈ params, IsFieldType p
  result : IsFieldType result ∨ result = "V"

namespace FieldType

variable {t name rest : Text} {type : FieldType}

/-- No class name goes past the semicolon that ends it. -/
def Closed : FieldType → Prop
  | primitive _ => True
  | object name => Text.byte ';' ∉ name
  | array element => element.Closed

/-! ### One field type -/

theorem readName_append (hname : Text.byte ';' ∉ name) (rest : Text) :
    readName (name ++ Text.byte ';' :: rest) = .ok (name, rest) := by
  induction name with
  | nil => simp [readName]
  | cons b name ih =>
      rw [List.mem_cons, not_or] at hname
      rw [List.cons_append, readName, if_neg (Ne.symm hname.1), ih hname.2]

theorem eq_of_readName (h : readName t = .ok (name, rest)) :
    t = name ++ Text.byte ';' :: rest ∧ Text.byte ';' ∉ name := by
  induction t generalizing name with
  | nil => cases h
  | cons b t ih =>
      unfold readName at h
      split at h
      · rename_i hb
        cases h
        exact ⟨by rw [hb, List.nil_append], List.not_mem_nil⟩
      rename_i hb
      split at h
      · rename_i name' rest' hread
        cases h
        obtain ⟨rfl, hname⟩ := ih hread
        exact ⟨rfl, by rw [List.mem_cons, not_or]; exact ⟨Ne.symm hb, hname⟩⟩
      · cases h

theorem letter_ne (p : Primitive) : p.letter ≠ Text.byte '[' ∧ p.letter ≠ Text.byte 'L' := by
  cases p <;> decide

/-- The text of a type is read as the type, whatever comes after it. -/
theorem read_render (h : type.Closed) (rest : Text) : read (type.render ++ rest) = .ok (type, rest) := by
  induction type with
  | primitive p =>
      obtain ⟨harray, hobject⟩ := letter_ne p
      rw [render, List.singleton_append, read, if_neg harray, if_neg hobject,
        Primitive.ofLetter?_letter]
  | object name =>
      rw [render, List.cons_append, List.append_assoc, List.singleton_append, read,
        if_neg (by decide), if_pos rfl, readName_append h]
  | array element ih => rw [render, List.cons_append, read, if_pos rfl, ih h]

/-- What is read as a type is the text of the type. -/
theorem eq_of_read (h : read t = .ok (type, rest)) : t = type.render ++ rest ∧ type.Closed := by
  induction t generalizing type with
  | nil => cases h
  | cons b t ih =>
      unfold read at h
      split at h
      case isTrue harray =>
        split at h
        · rename_i element rest' hread
          cases h
          obtain ⟨rfl, hclosed⟩ := ih hread
          exact ⟨by rw [harray, render, List.cons_append], hclosed⟩
        · cases h
      split at h
      case isTrue hobject =>
        split at h
        · rename_i name rest' hread
          cases h
          obtain ⟨rfl, hname⟩ := eq_of_readName hread
          refine ⟨?_, hname⟩
          rw [hobject, render, List.cons_append, List.append_assoc, List.singleton_append]
        · cases h
      split at h
      · rename_i p hletter
        cases h
        have hb : p.letter = b := by simpa using List.find?_some hletter
        exact ⟨by rw [render, hb, List.singleton_append], trivial⟩
      · cases h

theorem letter_mem (p : Primitive) : p.letter ∈ ("BCDFIJSZ" : Text) := by
  cases p <;> decide

theorem exists_letter {b : UInt8} (h : b ∈ ("BCDFIJSZ" : Text)) : ∃ p : Primitive, p.letter = b := by
  have hall : (("BCDFIJSZ" : Text).all fun b =>
      (Primitive.all.find? fun p => p.letter = b).isSome) = true := by decide
  obtain ⟨p, hp⟩ := Option.isSome_iff_exists.mp (List.all_eq_true.mp hall b h)
  exact ⟨p, by simpa using List.find?_some hp⟩

/-- The texts of types are those that the grammar describes. -/
theorem isFieldType_iff : IsFieldType t ↔ ∃ type : FieldType, type.Closed ∧ type.render = t := by
  constructor
  · rintro ⟨dimensions, base, rfl, hbase⟩
    induction dimensions with
    | zero =>
        rcases hbase with ⟨letter, hletter, rfl⟩ | ⟨name, hname, rfl⟩
        · obtain ⟨p, rfl⟩ := exists_letter hletter
          exact ⟨primitive p, trivial, rfl⟩
        · exact ⟨object name, hname, rfl⟩
    | succ dimensions ih =>
        obtain ⟨element, hclosed, hrender⟩ := ih
        exact ⟨array element, hclosed, by rw [render, hrender, List.replicate_succ, List.cons_append]⟩
  · rintro ⟨type, hclosed, rfl⟩
    induction type with
    | primitive p => exact ⟨0, _, rfl, .inl ⟨p.letter, letter_mem p, rfl⟩⟩
    | object name => exact ⟨0, _, rfl, .inr ⟨name, hclosed, rfl⟩⟩
    | array element ih =>
        obtain ⟨dimensions, base, heq, hbase⟩ := ih hclosed
        exact ⟨dimensions + 1, base, by rw [render, heq, List.replicate_succ, List.cons_append], hbase⟩

theorem isDescriptor_iff : isDescriptor t = true ↔ IsFieldType t := by
  rw [isFieldType_iff]
  constructor
  · intro h
    unfold isDescriptor at h
    split at h
    · rename_i type hread
      obtain ⟨ht, hclosed⟩ := eq_of_read hread
      exact ⟨type, hclosed, by rw [ht, List.append_nil]⟩
    · cases h
  · rintro ⟨type, hclosed, rfl⟩
    have hread := read_render hclosed []
    rw [List.append_nil] at hread
    rw [isDescriptor, hread]

theorem size_eq (type : FieldType) :
    type.size = if type.render = "J" ∨ type.render = "D" then 2 else 1 := by
  cases type with
  | primitive p => cases p <;> decide
  | object name => cases name <;> simp [size, render, show ("J" : Text) = [74] by decide,
      show ("D" : Text) = [68] by decide]
  | array element =>
      have hJ : Text.byte '[' ≠ 74 := by decide
      have hD : Text.byte '[' ≠ 68 := by decide
      simp [size, render, show ("J" : Text) = [74] by decide, show ("D" : Text) = [68] by decide, hJ, hD]

/-- The text of a type starts with neither the closing parenthesis nor the letter of no result. -/
theorem head_render (type : FieldType) :
    ∃ b t, type.render = b :: t ∧ b ≠ Text.byte ')' ∧ b ≠ Text.byte 'V' := by
  cases type with
  | primitive p => exact ⟨p.letter, [], rfl, by cases p <;> decide⟩
  | object name => exact ⟨_, _, rfl, by decide⟩
  | array element => exact ⟨_, _, rfl, by decide⟩

end FieldType

/-! ### Method types -/

namespace MethodType

variable {t rest : Text} {params : List FieldType} {result : Option FieldType} {fuel : Nat}

open FieldType

theorem readParams_render (hparams : ∀ p ∈ params, p.Closed) (rest : Text)
    (hfuel : (params.flatMap FieldType.render).length < fuel) :
    readParams fuel (params.flatMap FieldType.render ++ Text.byte ')' :: rest) = .ok (params, rest) := by
  induction params generalizing fuel with
  | nil =>
      obtain ⟨fuel, rfl⟩ := Nat.exists_eq_add_one.mpr (Nat.zero_lt_of_lt hfuel)
      rw [List.flatMap_nil, List.nil_append, readParams, if_pos rfl]
  | cons p params ih =>
      obtain ⟨fuel, rfl⟩ := Nat.exists_eq_add_one.mpr (Nat.zero_lt_of_lt hfuel)
      obtain ⟨hp, hparams⟩ := List.forall_mem_cons.mp hparams
      obtain ⟨b, t, hrender, hclose, -⟩ := p.head_render
      have hread := read_render hp (params.flatMap FieldType.render ++ Text.byte ')' :: rest)
      rw [List.flatMap_cons, hrender, List.cons_append, List.length_cons, List.length_append] at hfuel
      rw [hrender, List.cons_append] at hread
      rw [List.flatMap_cons, List.append_assoc, hrender, List.cons_append, readParams, if_neg hclose,
        hread]
      dsimp only
      rw [ih hparams (by omega)]

theorem eq_of_readParams (h : readParams fuel t = .ok (params, rest)) :
    t = params.flatMap FieldType.render ++ Text.byte ')' :: rest ∧ ∀ p ∈ params, p.Closed := by
  induction fuel generalizing t params with
  | zero => cases h
  | succ fuel ih =>
      cases t with
      | nil => cases h
      | cons b t =>
          unfold readParams at h
          split at h
          · rename_i hb
            cases h
            exact ⟨by rw [hb, List.flatMap_nil, List.nil_append], nofun⟩
          split at h
          · cases h
          rename_i param after hparam
          split at h
          · cases h
          rename_i others rest' hothers
          cases h
          obtain ⟨ht, hclosed⟩ := eq_of_read hparam
          obtain ⟨rfl, hall⟩ := ih hothers
          refine ⟨?_, List.forall_mem_cons.mpr ⟨hclosed, hall⟩⟩
          rw [ht, List.flatMap_cons, List.append_assoc]

theorem readResult_render (h : ∀ type ∈ result, type.Closed) :
    readResult (renderResult result) = .ok result := by
  cases result with
  | none => rfl
  | some type =>
      obtain ⟨b, t, hrender, -, hvoid⟩ := type.head_render
      have hread := read_render (h type rfl) []
      rw [List.append_nil] at hread
      have hne : type.render ≠ [Text.byte 'V'] := by
        intro heq
        rw [hrender, List.cons.injEq] at heq
        exact hvoid heq.1
      rw [renderResult, readResult, if_neg hne, hread]

theorem eq_of_readResult (h : readResult t = .ok result) :
    t = renderResult result ∧ ∀ type ∈ result, type.Closed := by
  unfold readResult at h
  split at h
  · rename_i hvoid
    cases h
    exact ⟨hvoid, nofun⟩
  split at h
  · cases h
  · rename_i type hread
    cases h
    obtain ⟨rfl, hclosed⟩ := eq_of_read hread
    refine ⟨List.append_nil _, fun type' htype => ?_⟩
    cases htype
    exact hclosed
  · cases h

/-- No type of the parameters and the result has a class name that goes past its end. -/
def Closed (m : MethodType) : Prop := (∀ p ∈ m.params, p.Closed) ∧ ∀ type ∈ m.result, type.Closed

/-- A method descriptor is read as what it was written from. -/
theorem read_ok {d : Text} {m : MethodType} : read d = .ok m ↔ d = m.render ∧ m.Closed := by
  constructor
  · intro h
    unfold read at h
    split at h
    case h_2 => cases h
    rename_i m' hfault
    cases h
    unfold readFault at hfault
    split at hfault
    · cases hfault
    split at hfault
    case isFalse => cases hfault
    rename_i b t hopen
    split at hfault
    · cases hfault
    rename_i params rest hparams
    split at hfault
    · cases hfault
    rename_i result hresult
    cases hfault
    obtain ⟨rfl, hclosed⟩ := eq_of_readParams hparams
    obtain ⟨rfl, hended⟩ := eq_of_readResult hresult
    exact ⟨by rw [hopen, render], hclosed, hended⟩
  · rintro ⟨rfl, hparams, hresult⟩
    rw [read, render, readFault, if_pos rfl,
      readParams_render hparams _ (by rw [List.length_append]; omega)]
    dsimp only
    rw [readResult_render hresult]

theorem isMethodType_iff {d : Text} {params : List Text} {result : Text} :
    IsMethodType d params result ↔
      ∃ m : MethodType, (d = m.render ∧ m.Closed) ∧ m.params.map FieldType.render = params ∧
        renderResult m.result = result := by
  constructor
  · rintro ⟨rfl, hparams, hresult⟩
    obtain ⟨types, htypes, rfl⟩ : ∃ types : List FieldType, (∀ p ∈ types, p.Closed) ∧
        types.map FieldType.render = params := by
      induction params with
      | nil => exact ⟨[], nofun, rfl⟩
      | cons p params ih =>
          obtain ⟨hp, hrest⟩ := List.forall_mem_cons.mp hparams
          obtain ⟨types, hall, rfl⟩ := ih hrest
          obtain ⟨type, hclosed, rfl⟩ := isFieldType_iff.mp hp
          exact ⟨type :: types, List.forall_mem_cons.mpr ⟨hclosed, hall⟩, rfl⟩
    obtain ⟨type, hclosed, rfl⟩ : ∃ type : Option FieldType, (∀ t ∈ type, t.Closed) ∧
        renderResult type = result := by
      rcases hresult with hresult | rfl
      · obtain ⟨type, hclosed, rfl⟩ := isFieldType_iff.mp hresult
        refine ⟨some type, fun type' htype => ?_, rfl⟩
        cases htype
        exact hclosed
      · exact ⟨none, nofun, by decide⟩
    exact ⟨⟨types, type⟩, ⟨by rw [render, List.flatMap_def], htypes, hclosed⟩, rfl, rfl⟩
  · rintro ⟨m, ⟨rfl, hparams, hresult⟩, rfl, rfl⟩
    refine ⟨by rw [render, List.flatMap_def], fun p hp => ?_, ?_⟩
    · obtain ⟨type, htype, rfl⟩ := List.mem_map.mp hp
      exact isFieldType_iff.mpr ⟨type, hparams type htype, rfl⟩
    · cases hm : m.result with
      | none => exact .inr (by decide)
      | some type => exact .inl (isFieldType_iff.mpr ⟨type, hresult type hm, rfl⟩)

theorem argSlots_eq (m : MethodType) (isStatic : Bool) :
    m.argSlots isStatic = (if isStatic then 0 else 1) + total ((m.params.map FieldType.render).map
      fun p => if p = ("J" : Text) ∨ p = ("D" : Text) then 2 else 1) := by
  rw [argSlots, List.map_map]
  congr 2
  exact List.map_congr_left fun type _ => type.size_eq

/-- A text is read as a method descriptor with some parameters and a result exactly when it is cut into
them, which can be done in one way only; the arguments then take two variables for each long or
double, one for each other parameter and one for a receiver. A text is taken for the descriptor of a
field exactly when it is one. -/
theorem read_grammar (d : Text) :
    (∀ params result, (∃ m, read d = .ok m ∧ m.params.map FieldType.render = params ∧
      renderResult m.result = result) ↔ IsMethodType d params result) ∧
    ((∃ m, read d = .ok m) ↔ ∃! parts : List Text × Text, IsMethodType d parts.1 parts.2) ∧
    (∀ isStatic slots, (∃ m, read d = .ok m ∧ m.argSlots isStatic = slots) ↔
      ∃ params result, IsMethodType d params result ∧ slots = (if isStatic then 0 else 1) +
        total (params.map fun p => if p = ("J" : Text) ∨ p = ("D" : Text) then 2 else 1)) ∧
    (FieldType.isDescriptor d = true ↔ IsFieldType d) := by
  have hparts : ∀ params result, (∃ m, read d = .ok m ∧ m.params.map FieldType.render = params ∧
      renderResult m.result = result) ↔ IsMethodType d params result := by
    intro params result
    simp only [isMethodType_iff, read_ok]
  refine ⟨hparts, ⟨?_, ?_⟩, fun isStatic slots => ⟨?_, ?_⟩, isDescriptor_iff⟩
  · rintro ⟨m, hread⟩
    refine ⟨(m.params.map FieldType.render, renderResult m.result),
      (hparts _ _).mp ⟨m, hread, rfl, rfl⟩, ?_⟩
    rintro ⟨params, result⟩ hother
    obtain ⟨m', hread', rfl, rfl⟩ := (hparts _ _).mpr hother
    cases hread.symm.trans hread'
    rfl
  · rintro ⟨⟨params, result⟩, hcut, -⟩
    obtain ⟨m, hread, -⟩ := (hparts _ _).mpr hcut
    exact ⟨m, hread⟩
  · rintro ⟨m, hread, rfl⟩
    exact ⟨_, _, (hparts _ _).mp ⟨m, hread, rfl, rfl⟩, m.argSlots_eq isStatic⟩
  · rintro ⟨params, result, hcut, rfl⟩
    obtain ⟨m, hread, rfl, rfl⟩ := (hparts _ _).mpr hcut
    exact ⟨m, hread, m.argSlots_eq isStatic⟩

end MethodType

end ClassLinker
