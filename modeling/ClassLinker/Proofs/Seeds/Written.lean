import ClassLinker.Proofs.Descriptor.Grammar
import ClassLinker.Proofs.Image.Build
import ClassLinker.Proofs.Text.Printed
import ClassLinker.Proofs.Text.Words
import ClassLinker.Seeds

/-! Files of references. A file may be written in many ways, with any white space between the words of
a reference and around them, with comments, with lines that hold no reference and with dots in the
names of classes; what is read from it are the members that were written into it, one to a line, and
nothing else is read at all. -/

namespace ClassLinker

namespace Member

open Text

/-! ### What may be written -/

/-- A word that holds no start of a comment. -/
structure IsToken (t : Text) : Prop where
  ne_nil : t ≠ []
  unbroken : Unbroken t
  bare : byte '#' ∉ t

/-- A descriptor of a method or of a field. -/
def IsDescriptor (t : Text) : Prop :=
  (∃ type, MethodType.read t = .ok type) ∨ FieldType.isDescriptor t = true

/-- A member that can be written into a file. -/
structure Writable (m : Member) : Prop where
  className : IsToken m.className
  dotless : byte '.' ∉ m.className
  name : IsToken m.sig.name
  descriptor : IsToken m.sig.descriptor
  valid : IsDescriptor m.sig.descriptor

/-- White space within a line. -/
structure IsGap (t : Text) : Prop where
  blank : Blank t
  within : byte '\n' ∉ t

/-- What may stand at the end of a line: nothing, or a comment. -/
structure IsRemark (t : Text) : Prop where
  marked : ∀ b ∈ t.head?, b = byte '#'
  within : byte '\n' ∉ t

/-- A line without a member: white space and perhaps a comment. -/
def IsIdle (line : Text) : Prop :=
  ∃ gap remark, IsGap gap ∧ IsRemark remark ∧ line = gap ++ remark

/-- A line for a member. The name of the class may have dots in place of slashes. -/
def IsLineOf (m : Member) (line : Text) : Prop :=
  ∃ before className gap gap' after remark,
    IsGap before ∧ replaceByte (byte '.') (byte '/') className = m.className ∧
    IsGap gap ∧ gap ≠ [] ∧ IsGap gap' ∧ gap' ≠ [] ∧ IsGap after ∧ IsRemark remark ∧
    line = before ++ className ++ gap ++ m.sig.name ++ gap' ++ m.sig.descriptor ++ after ++ remark

/-- Lines that members are written on in order, one to a line, with idle lines anywhere. -/
inductive WrittenOn : List Member → List Text → Prop
  | nil : WrittenOn [] []
  | idle {ms : List Member} {line : Text} {lines : List Text} (hline : IsIdle line)
      (h : WrittenOn ms lines) : WrittenOn ms (line :: lines)
  | member {m : Member} {ms : List Member} {line : Text} {lines : List Text}
      (hline : IsLineOf m line) (h : WrittenOn ms lines) : WrittenOn (m :: ms) (line :: lines)

variable {m : Member} {ms : List Member} {line content remark t : Text} {lines : List Text}

/-! ### One reference -/

theorem isMethod_of_read {s : Signature} {type : MethodType}
    (h : MethodType.read s.descriptor = .ok type) : s.isMethod = true := by
  obtain ⟨hrender, -⟩ := MethodType.read_ok.mp h
  rw [Signature.isMethod, hrender]
  rfl

theorem not_isMethod_of_isDescriptor {s : Signature}
    (h : FieldType.isDescriptor s.descriptor = true) : s.isMethod = false := by
  obtain ⟨type, -, hrender⟩ := FieldType.isFieldType_iff.mp (FieldType.isDescriptor_iff.mp h)
  rw [Signature.isMethod, ← hrender]
  cases type with
  | primitive p => cases p <;> rfl
  | object name => rfl
  | array element => rfl

/-- A reference is read from three words of which the last one is a descriptor. -/
theorem read_ok : read t = .ok m ↔ ∃ className,
    words t = [className, m.sig.name, m.sig.descriptor] ∧
    replaceByte (byte '.') (byte '/') className = m.className ∧ IsDescriptor m.sig.descriptor := by
  constructor
  · intro h
    unfold read at h
    split at h
    case h_1 className name descriptor hwords =>
        dsimp only at h
        split at h
        case isTrue =>
            split at h
            case h_1 type hread =>
                cases h
                exact ⟨className, hwords, rfl, .inl ⟨type, hread⟩⟩
            case h_2 => cases h
        case isFalse =>
            split at h
            case isTrue hfield =>
                cases h
                exact ⟨className, hwords, rfl, .inr hfield⟩
            case isFalse => cases h
    case h_2 => cases h
  · rintro ⟨className, hwords, hclass, hvalid⟩
    obtain ⟨_, sig⟩ := m
    subst hclass
    unfold read
    rw [hwords]
    dsimp only
    rcases hvalid with ⟨type, hread⟩ | hfield
    · rw [if_pos (isMethod_of_read hread), hread]
    · rw [if_neg (by rw [not_isMethod_of_isDescriptor hfield]; decide), if_pos hfield]

/-! ### One line -/

theorem dropComment_append (hcontent : byte '#' ∉ content)
    (hmarked : ∀ b ∈ remark.head?, b = byte '#') : dropComment (content ++ remark) = content := by
  have hplain : ∀ b ∈ content, decide (b ≠ byte '#') = true := fun b hb =>
    decide_eq_true fun heq => hcontent (heq ▸ hb)
  rw [dropComment, List.takeWhile_append_of_pos hplain]
  cases remark with
  | nil => exact List.append_nil _
  | cons b remark =>
      rw [List.takeWhile_cons_of_neg (by simp [hmarked b rfl]), List.append_nil]

/-- A line is what stands before its comment, and the comment. -/
theorem exists_remark (line : Text) :
    ∃ remark : Text, (∀ b ∈ remark.head?, b = byte '#') ∧ line = dropComment line ++ remark := by
  refine ⟨line.dropWhile (· ≠ byte '#'), fun b hb => ?_, List.takeWhile_append_dropWhile.symm⟩
  have hhead := List.head?_dropWhile_not (fun b => decide (b ≠ byte '#')) line
  rw [Option.mem_def.mp hb] at hhead
  simpa using hhead

theorem not_mem_dropComment (line : Text) : byte '#' ∉ dropComment line := fun hmem => by
  simpa using List.mem_takeWhile_imp hmem

/-- The carriage return at the end of a line belongs to no word. -/
theorem words_dropReturn (line : Text) :
    words (dropComment (dropReturn line)) = words (dropComment line) := by
  rcases dropReturn_cases line with heq | heq
  · rw [heq]
  generalize dropReturn line = front at heq
  subst heq
  obtain ⟨remark, hmarked, hfront⟩ := exists_remark front
  cases remark with
  | nil =>
      rw [List.append_nil] at hfront
      have hbare : byte '#' ∉ front ++ [byte '\r'] := by
        rw [hfront, List.mem_append, not_or]
        exact ⟨not_mem_dropComment front, by decide⟩
      have hwhole : dropComment (front ++ [byte '\r'] ++ []) = front ++ [byte '\r'] :=
        dropComment_append hbare nofun
      rw [List.append_nil] at hwhole
      rw [hwhole, ← hfront, words_append_blank front (by decide)]
  | cons b remark =>
      have hsame : dropComment (front ++ [byte '\r']) = dropComment front := by
        conv_lhs => rw [hfront, List.append_assoc, List.cons_append]
        exact dropComment_append (not_mem_dropComment front) hmarked
      rw [hsame]

theorem IsGap.bare {gap : Text} (h : IsGap gap) : byte '#' ∉ gap :=
  h.blank.not_mem (by decide) (by decide)

/-- The name of a class is a word however it is written. -/
theorem IsToken.of_replaced {className : Text}
    (h : IsToken (replaceByte (byte '.') (byte '/') className)) : IsToken className where
  ne_nil := by
    rintro rfl
    exact h.ne_nil rfl
  unbroken := (unbroken_replaceByte (by decide) (by decide) (by decide) (by decide)).mp h.unbroken
  bare hmem := h.bare (mem_replaceByte.mpr (.inl ⟨hmem, by decide⟩))

theorem IsToken.replaced {className : Text} (h : IsToken className) :
    IsToken (replaceByte (byte '.') (byte '/') className) where
  ne_nil hnil := h.ne_nil (List.map_eq_nil_iff.mp hnil)
  unbroken := (unbroken_replaceByte (by decide) (by decide) (by decide) (by decide)).mpr h.unbroken
  bare hmem := by
    rcases mem_replaceByte.mp hmem with ⟨hmem, -⟩ | ⟨-, heq⟩
    · exact h.bare hmem
    · exact absurd heq (by decide)

theorem isIdle_iff (hline : byte '\n' ∉ line) : IsIdle line ↔ words (dropComment line) = [] := by
  rw [words_eq_nil_iff]
  constructor
  · rintro ⟨gap, remark, hgap, hremark, rfl⟩
    rw [dropComment_append hgap.bare hremark.marked]
    exact hgap.blank
  · intro hblank
    obtain ⟨remark, hmarked, heq⟩ := exists_remark line
    refine ⟨dropComment line, remark, ⟨hblank, fun hmem => hline ?_⟩, ⟨hmarked, fun hmem => hline ?_⟩,
      heq⟩
    · exact heq ▸ List.mem_append_left _ hmem
    · exact heq ▸ List.mem_append_right _ hmem

/-- The words on a line for a member. -/
theorem words_of_isLineOf (hm : m.Writable) (h : IsLineOf m line) : ∃ className,
    words (dropComment line) = [className, m.sig.name, m.sig.descriptor] ∧
    replaceByte (byte '.') (byte '/') className = m.className := by
  obtain ⟨before, className, gap, gap', after, remark, hbefore, hclass, hgap, hne, hgap', hne',
    hafter, hremark, rfl⟩ := h
  have htoken : IsToken className := .of_replaced (hclass ▸ hm.className)
  refine ⟨className, ?_, hclass⟩
  have hbare : byte '#' ∉
      before ++ className ++ gap ++ m.sig.name ++ gap' ++ m.sig.descriptor ++ after := by
    simp only [List.mem_append, not_or]
    exact ⟨⟨⟨⟨⟨⟨hbefore.bare, htoken.bare⟩, hgap.bare⟩, hm.name.bare⟩, hgap'.bare⟩,
      hm.descriptor.bare⟩, hafter.bare⟩
  rw [dropComment_append hbare hremark.marked]
  simp only [List.append_assoc]
  rw [words_blank_append hbefore.blank,
    words_word_append htoken.unbroken htoken.ne_nil (hgap.blank.spaced_append hne _),
    words_blank_append hgap.blank,
    words_word_append hm.name.unbroken hm.name.ne_nil (hgap'.blank.spaced_append hne' _),
    words_blank_append hgap'.blank,
    words_word_append hm.descriptor.unbroken hm.descriptor.ne_nil hafter.blank.spaced,
    words_eq_nil_iff.mpr hafter.blank]

/-- A line with three words is one for the member that they name. -/
theorem isLineOf_of_words {className : Text} (hline : byte '\n' ∉ line)
    (hwords : words (dropComment line) = [className, m.sig.name, m.sig.descriptor])
    (hclass : replaceByte (byte '.') (byte '/') className = m.className) : IsLineOf m line := by
  obtain ⟨remark, hmarked, heq⟩ := exists_remark line
  obtain ⟨before, gap, rest, hcontent, hbefore, -, -, hgap, hne, hrest⟩ := exists_of_words_cons hwords
  obtain ⟨before', gap', rest', rfl, hbefore', -, -, hgap', hne', hrest'⟩ :=
    exists_of_words_cons hrest
  obtain ⟨before'', gap'', rest'', rfl, hbefore'', -, -, hgap'', -, hrest''⟩ :=
    exists_of_words_cons hrest'
  have hblank : Blank rest'' := words_eq_nil_iff.mp hrest''
  rw [hcontent] at heq
  have hwithin := hline
  rw [heq] at hwithin
  simp only [List.mem_append, not_or] at hwithin
  obtain ⟨⟨h₁, -, h₂, h₃, -, h₄, h₅, -, h₆, h₇⟩, h₈⟩ := hwithin
  refine ⟨before, className, gap ++ before', gap' ++ before'', gap'' ++ rest'', remark,
    ⟨hbefore, h₁⟩, hclass, ⟨hgap.append hbefore', ?_⟩, ?_, ⟨hgap'.append hbefore'', ?_⟩, ?_,
    ⟨hgap''.append hblank, ?_⟩, ⟨hmarked, h₈⟩, ?_⟩
  · rw [List.mem_append, not_or]
    exact ⟨h₂, h₃⟩
  · exact List.append_ne_nil_of_left_ne_nil (hne (List.cons_ne_nil _ _)) _
  · rw [List.mem_append, not_or]
    exact ⟨h₄, h₅⟩
  · exact List.append_ne_nil_of_left_ne_nil (hne' (List.cons_ne_nil _ _)) _
  · rw [List.mem_append, not_or]
    exact ⟨h₆, h₇⟩
  · rw [heq]
    simp only [List.append_assoc]

/-- A member that is read from the words of a line can be written. -/
theorem writable_of_words {className : Text}
    (hwords : words (dropComment line) = [className, m.sig.name, m.sig.descriptor])
    (hclass : replaceByte (byte '.') (byte '/') className = m.className)
    (hvalid : IsDescriptor m.sig.descriptor) : m.Writable := by
  have htoken : ∀ w ∈ [className, m.sig.name, m.sig.descriptor], IsToken w := by
    rw [← hwords]
    intro w hw
    refine ⟨ne_nil_of_mem_words hw, unbroken_of_mem_words hw, fun hmem => ?_⟩
    exact not_mem_dropComment line (subset_of_mem_words hw hmem)
  refine ⟨hclass ▸ (htoken className (by simp)).replaced, ?_, htoken _ (by simp), htoken _ (by simp),
    hvalid⟩
  rw [← hclass]
  intro hmem
  rcases mem_replaceByte.mp hmem with ⟨-, hne⟩ | ⟨-, heq⟩
  · exact hne rfl
  · exact absurd heq (by decide)

/-- What is read from a line, if anything, is the member that is written on it. -/
theorem read_line (hline : byte '\n' ∉ line) :
    read (dropComment (dropReturn line)) = .ok m ↔ m.Writable ∧ IsLineOf m line := by
  rw [read_ok, words_dropReturn]
  constructor
  · rintro ⟨className, hwords, hclass, hvalid⟩
    exact ⟨writable_of_words hwords hclass hvalid, isLineOf_of_words hline hwords hclass⟩
  · rintro ⟨hm, hwritten⟩
    obtain ⟨className, hwords, hclass⟩ := words_of_isLineOf hm hwritten
    exact ⟨className, hwords, hclass, hm.valid⟩

/-! ### Lines -/

theorem readEach_cons : readEach (line :: lines) = .ok ms ↔
    (words (dropComment line) = [] ∧ readEach lines = .ok ms) ∨
      ∃ m rest, ms = m :: rest ∧ read (dropComment line) = .ok m ∧ readEach lines = .ok rest := by
  rw [readEach]
  have hblank : trim (dropComment line) = [] ↔ words (dropComment line) = [] :=
    trim_eq_nil_iff.trans words_eq_nil_iff.symm
  split
  case isTrue htrim =>
    refine ⟨fun h => .inl ⟨hblank.mp htrim, h⟩, ?_⟩
    rintro (⟨-, h⟩ | ⟨m, rest, -, hread, -⟩)
    · exact h
    · obtain ⟨className, hwords, -⟩ := read_ok.mp hread
      rw [hblank.mp htrim] at hwords
      cases hwords
  case isFalse htrim =>
    constructor
    · intro h
      obtain ⟨m, hread, h⟩ := except_bind_ok.mp h
      obtain ⟨rest, hrest, h⟩ := except_bind_ok.mp h
      cases h
      exact .inr ⟨m, rest, rfl, hread, hrest⟩
    · rintro (⟨hwords, -⟩ | ⟨m, rest, rfl, hread, hrest⟩)
      · exact absurd (hblank.mpr hwords) htrim
      · rw [hread, hrest]
        rfl

theorem readEach_idle (lines : List Text) : readEach (lines ++ [[]]) = readEach lines := by
  induction lines with
  | nil => exact readEach_cons.mpr (.inl ⟨words_eq_nil_iff.mpr (by decide), rfl⟩)
  | cons line lines ih =>
      rw [List.cons_append, readEach, readEach, ih]

theorem writtenOn_cons : WrittenOn ms (line :: lines) ↔
    (IsIdle line ∧ WrittenOn ms lines) ∨
      ∃ m rest, ms = m :: rest ∧ IsLineOf m line ∧ WrittenOn rest lines := by
  constructor
  · intro h
    cases h with
    | idle hline h => exact .inl ⟨hline, h⟩
    | member hline h => exact .inr ⟨_, _, rfl, hline, h⟩
  · rintro (⟨hline, h⟩ | ⟨m, rest, rfl, hline, h⟩)
    · exact .idle hline h
    · exact .member hline h

/-- What is read from lines are the members that are written on them. -/
theorem readEach_written (hlines : ∀ line ∈ lines, byte '\n' ∉ line) :
    readEach (lines.map dropReturn) = .ok ms ↔ (∀ m ∈ ms, m.Writable) ∧ WrittenOn ms lines := by
  induction lines generalizing ms with
  | nil =>
      constructor
      · intro h
        cases h
        exact ⟨nofun, .nil⟩
      · rintro ⟨-, h⟩
        cases h
        rfl
  | cons line lines ih =>
      obtain ⟨hline, hlines⟩ := List.forall_mem_cons.mp hlines
      rw [List.map_cons, readEach_cons, words_dropReturn, ← isIdle_iff hline, ih hlines,
        writtenOn_cons]
      simp only [read_line hline, ih hlines]
      constructor
      · rintro (⟨hidle, hms, h⟩ | ⟨m, rest, rfl, ⟨hm, hwritten⟩, hrest, h⟩)
        · exact ⟨hms, .inl ⟨hidle, h⟩⟩
        · exact ⟨List.forall_mem_cons.mpr ⟨hm, hrest⟩, .inr ⟨m, rest, rfl, hwritten, h⟩⟩
      · rintro ⟨hms, ⟨hidle, h⟩ | ⟨m, rest, rfl, hwritten, h⟩⟩
        · exact .inl ⟨hidle, hms, h⟩
        · obtain ⟨hm, hrest⟩ := List.forall_mem_cons.mp hms
          exact .inr ⟨m, rest, rfl, ⟨hm, hwritten⟩, hrest, h⟩

theorem WrittenOn.exists_line (h : WrittenOn ms lines) (hm : m ∈ ms) :
    ∃ line ∈ lines, IsLineOf m line := by
  induction h with
  | nil => cases hm
  | idle hline h ih =>
      obtain ⟨line, hmem, hwritten⟩ := ih hm
      exact ⟨line, List.mem_cons_of_mem _ hmem, hwritten⟩
  | member hline h ih =>
      rcases List.mem_cons.mp hm with rfl | hm
      · exact ⟨_, List.mem_cons_self, hline⟩
      · obtain ⟨line, hmem, hwritten⟩ := ih hm
        exact ⟨line, List.mem_cons_of_mem _ hmem, hwritten⟩

theorem IsIdle.within (h : IsIdle line) : byte '\n' ∉ line := by
  obtain ⟨gap, remark, hgap, hremark, rfl⟩ := h
  rw [List.mem_append, not_or]
  exact ⟨hgap.within, hremark.within⟩

theorem IsToken.within (h : IsToken t) : byte '\n' ∉ t := h.unbroken.not_mem (by decide) (by decide)

theorem IsLineOf.within (hm : m.Writable) (h : IsLineOf m line) : byte '\n' ∉ line := by
  obtain ⟨before, className, gap, gap', after, remark, hbefore, hclass, hgap, -, hgap', -, hafter,
    hremark, rfl⟩ := h
  have htoken : IsToken className := .of_replaced (hclass ▸ hm.className)
  simp only [List.mem_append, not_or]
  exact ⟨⟨⟨⟨⟨⟨⟨hbefore.within, htoken.within⟩, hgap.within⟩, hm.name.within⟩, hgap'.within⟩,
    hm.descriptor.within⟩, hafter.within⟩, hremark.within⟩

theorem WrittenOn.within (h : WrittenOn ms lines) (hms : ∀ m ∈ ms, m.Writable) :
    ∀ line ∈ lines, byte '\n' ∉ line := by
  induction h with
  | nil => exact nofun
  | idle hline h ih => exact List.forall_mem_cons.mpr ⟨hline.within, ih hms⟩
  | member hline h ih =>
      obtain ⟨hm, hrest⟩ := List.forall_mem_cons.mp hms
      exact List.forall_mem_cons.mpr ⟨hline.within hm, ih hrest⟩

/-! ### Files -/

/-- A file is read where all its lines fit the line buffer and the lines can be read. -/
theorem readText_ok : readText t = .ok ms ↔
    (∀ line ∈ splitOn (byte '\n') t, line.length < lineLimit) ∧
      readEach ((splitOn (byte '\n') t).map dropReturn) = .ok ms := by
  have hraw : readText t = .ok ms ↔ (∀ line ∈ rawLines t, line.length < lineLimit) ∧
      readEach ((rawLines t).map dropReturn) = .ok ms := by
    rw [← tooLong_iff]
    constructor
    · intro h
      obtain ⟨read, hread, h⟩ := except_bind_ok.mp h
      cases hlong : (readLines t).tooLong with
      | true =>
          rw [hlong] at h
          cases h
      | false =>
          rw [hlong] at h
          cases h
          exact ⟨rfl, lines_of_fits hlong ▸ hread⟩
    · rintro ⟨hlong, hread⟩
      rw [readText, lines_of_fits hlong, hread, hlong]
      rfl
  rw [hraw]
  rcases rawLines_cases t with hsplit | hsplit
  · rw [hsplit]
  · have hfits : ∀ line ∈ [([] : Text)], line.length < lineLimit := by decide
    have hlast : [([] : Text)].map dropReturn = [[]] := rfl
    rw [hsplit, List.map_append, hlast, readEach_idle, List.forall_mem_append, and_iff_left hfits]

/-- A text is read as a list of members exactly where the text is those members written on lines that
fit the line buffer, and each of the members can be written. Every member that is read stands on a
line with three words before its comment. -/
theorem readText_written (t : Text) (ms : List Member) :
    (readText t = .ok ms ↔ (∀ m ∈ ms, m.Writable) ∧ ∃ lines, WrittenOn ms lines ∧
      (∀ line ∈ lines, line.length < lineLimit) ∧ t = join [byte '\n'] lines) ∧
    (readText t = .ok ms → ∀ m ∈ ms, ∃ line ∈ splitOn (byte '\n') t, ∃ className,
      words (dropComment line) = [className, m.sig.name, m.sig.descriptor] ∧
      replaceByte (byte '.') (byte '/') className = m.className) := by
  have hwithin : ∀ line ∈ splitOn (byte '\n') t, byte '\n' ∉ line := fun _ =>
    not_mem_of_mem_splitOn
  refine ⟨⟨fun h => ?_, ?_⟩, fun h m hm => ?_⟩
  · obtain ⟨hfits, hread⟩ := readText_ok.mp h
    obtain ⟨hms, hwritten⟩ := (readEach_written hwithin).mp hread
    exact ⟨hms, _, hwritten, hfits, (join_splitOn _ t).symm⟩
  · rintro ⟨hms, lines, hwritten, hfits, rfl⟩
    by_cases hne : lines = []
    · subst hne
      cases hwritten
      rfl
    · rw [readText_ok, splitOn_join hne (hwritten.within hms),
        readEach_written (hwritten.within hms)]
      exact ⟨hfits, hms, hwritten⟩
  · obtain ⟨hms, hwritten⟩ := (readEach_written hwithin).mp (readText_ok.mp h).2
    obtain ⟨line, hline, hwritten⟩ := hwritten.exists_line hm
    exact ⟨line, hline, words_of_isLineOf (hms m hm) hwritten⟩

/-- A file with comments, a blank line, a carriage return, a tab, a wide space and dots in the name of
a class. -/
def glue : Text :=
  "# native glue\napp.Glue callback\t()V # called from C\r\n\n\u2003java/lang/String value  [C"

def glueMembers : List Member := [⟨"app/Glue", "callback", "()V"⟩, ⟨"java/lang/String", "value", "[C"⟩]

theorem readText_written_glue : readText glue = .ok glueMembers ∧ (∀ m ∈ glueMembers, m.Writable) ∧
    (∃ lines, WrittenOn glueMembers lines ∧ glue = join [byte '\n'] lines) ∧
    ∀ m ∈ glueMembers, ∃ line ∈ splitOn (byte '\n') glue, ∃ className,
      words (dropComment line) = [className, m.sig.name, m.sig.descriptor] ∧
      replaceByte (byte '.') (byte '/') className = m.className := by
  have hread : readText glue = .ok glueMembers := by decide +kernel
  obtain ⟨hiff, hlines⟩ := readText_written glue glueMembers
  obtain ⟨hms, lines, hwritten, -, hglue⟩ := hiff.mp hread
  exact ⟨hread, hms, ⟨lines, hwritten, hglue⟩, hlines hread⟩

end Member

end ClassLinker
