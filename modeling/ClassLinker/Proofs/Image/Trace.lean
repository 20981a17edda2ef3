import ClassLinker.Image.Trace
import ClassLinker.Proofs.Image.Codec
import ClassLinker.Proofs.Text.Printed
import ClassLinker.Retrace

/-! Retracing what was traced. Each source line of an image is printed as a line of three words, and
the reader of traces reads the words back. The trace as a whole is read back as the lines of the
image exactly if no method has white space in it and every line fits the line buffer. -/

namespace ClassLinker

/-! ### Sorting by a number -/

section Sorting

variable {α : Type} (key : α → Int) (xs : List α)

theorem pairwise_mergeSort_key :
    (xs.mergeSort fun a b => key a ≤ key b).Pairwise fun a b => key a ≤ key b := by
  refine (List.pairwise_mergeSort (fun a b c hab hbc => ?_) (fun a b => ?_) xs).imp of_decide_eq_true
  · exact decide_eq_true (Int.le_trans (of_decide_eq_true hab) (of_decide_eq_true hbc))
  · simpa using Int.le_total (key a) (key b)

/-- Sorting keeps the order of those with one number. -/
theorem filter_mergeSort_key (n : Int) :
    (xs.mergeSort fun a b => key a ≤ key b).filter (fun x => key x = n) =
      xs.filter fun x => key x = n := by
  have hkey : ∀ {x}, x ∈ xs.filter (fun x => key x = n) → key x = n := fun hx => by
    simpa using (List.mem_filter.mp hx).2
  have hsorted : (xs.filter fun x => key x = n).Pairwise fun a b => decide (key a ≤ key b) = true := by
    refine List.pairwise_iff_forall_sublist.mpr fun {a b} hab => decide_eq_true ?_
    rw [hkey (hab.subset (by simp)), hkey (hab.subset (by simp))]
  have hsub : (xs.filter fun x => key x = n).Sublist (xs.mergeSort fun a b => key a ≤ key b) := by
    refine List.sublist_mergeSort (fun a b c hab hbc => ?_) (fun a b => ?_) hsorted
      List.filter_sublist
    · exact decide_eq_true (Int.le_trans (of_decide_eq_true hab) (of_decide_eq_true hbc))
    · simpa using Int.le_total (key a) (key b)
  have hsub := hsub.filter fun x => key x = n
  rw [List.filter_filter, show (fun x => decide (key x = n) && decide (key x = n)) =
    fun x => decide (key x = n) from funext fun _ => Bool.and_self _] at hsub
  exact (hsub.eq_of_length ((List.mergeSort_perm xs _).filter _).length_eq.symm).symm

end Sorting

/-! ### Reading lines of a trace -/

namespace TraceEntry

/-- The method of an entry that was read is a word. -/
theorem unbroken_of_readLine? {line : Text} {e : TraceEntry} (h : readLine? line = .ok (some e)) :
    Text.Unbroken e.method := by
  unfold readLine? at h
  dsimp only at h
  split at h
  case isTrue => cases h
  case isFalse =>
      split at h
      case h_1 pc source method hwords =>
          obtain ⟨n, -, h⟩ := except_bind_ok.mp h
          obtain ⟨k, -, h⟩ := except_bind_ok.mp h
          cases h
          exact Text.unbroken_of_mem_words (by rw [hwords]; simp)
      case h_2 => cases h

theorem readLines_cons {n : Nat} {line : Text} {lines : List Text} {es : List TraceEntry} :
    readLines n (line :: lines) = .ok es ↔ ∃ entry rest, readLine? line = .ok entry ∧
      readLines (n + 1) lines = .ok rest ∧ es = entry.toList ++ rest := by
  rw [readLines, except_bind_ok]
  simp only [except_mapError_ok, except_bind_ok]
  constructor
  · rintro ⟨entry, hentry, rest, hrest, ⟨⟩⟩
    exact ⟨entry, rest, hentry, hrest, rfl⟩
  · rintro ⟨entry, rest, hentry, hrest, rfl⟩
    exact ⟨entry, hentry, rest, hrest, rfl⟩

theorem unbroken_of_readLines {n : Nat} {lines : List Text} {es : List TraceEntry}
    (h : readLines n lines = .ok es) : ∀ e ∈ es, Text.Unbroken e.method := by
  induction lines generalizing n es with
  | nil =>
      cases h
      simp
  | cons line lines ih =>
      obtain ⟨entry, rest, hentry, hrest, rfl⟩ := readLines_cons.mp h
      intro e he
      rcases List.mem_append.mp he with he | he
      · cases entry with
        | none => cases he
        | some e' =>
            cases List.mem_singleton.mp he
            exact unbroken_of_readLine? hentry
      · exact ih hrest e he

/-- A line that starts with two colons is a heading. -/
theorem readLine?_heading (t : Text) : readLine? (("::" : Text) ++ t) = .ok none := by
  obtain ⟨rest, hrest⟩ := Text.exists_trim_append (s := "::") (by decide) (by decide) (by decide) t
  have hstart : ("::" : Text).isPrefixOf (("::" : Text) ++ rest) = true :=
    List.isPrefixOf_iff_prefix.mpr (List.prefix_append _ _)
  unfold readLine?
  dsimp only
  rw [hrest, if_pos (by rw [hstart, Bool.or_true])]

end TraceEntry

/-- Of a trace that is read no line was too long, and every method is a word. -/
theorem TraceTable.of_read {t : Text} {table : TraceTable} (h : read t = .ok table) :
    (Text.readLines t).tooLong = false ∧ ∀ e ∈ table.entries, Text.Unbroken e.method := by
  unfold read at h
  obtain ⟨entries, hentries, h⟩ := except_bind_ok.mp h
  split at h
  case isTrue => cases h
  case isFalse hfits =>
      cases h
      refine ⟨eq_false_of_ne_true hfits, fun e he => ?_⟩
      exact TraceEntry.unbroken_of_readLines hentries e
        ((List.mergeSort_perm _ _).mem_iff.mp he)

namespace Image

/-! ### The printed lines -/

namespace LineInfo

/-- A source line as it is printed, without the newline. -/
def printed (l : LineInfo) : Text := Text.ofInt l.pc ++ "  " ++ Text.ofInt l.line ++ "  " ++ l.method

/-- The entry of a trace for a source line. -/
def entry (l : LineInfo) : TraceEntry := ⟨l.pc, l.line, l.method⟩

variable {l : LineInfo}

/-- The printed line of a method that is a word has no white space but spaces. -/
theorem not_mem_printed (h : Text.Unbroken l.method) {b : UInt8} (hascii : b < 0x80)
    (hblank : Text.isBlank (Text.asciiPiece b) = true) (hspace : b ≠ Text.byte ' ') :
    b ∉ l.printed := by
  have hspaces : b ∉ ("  " : Text) := by
    have hbytes : ("  " : Text) = [Text.byte ' ', Text.byte ' '] := by decide
    rw [hbytes]
    simp [hspace]
  simp only [printed, List.mem_append, not_or]
  exact ⟨⟨⟨⟨(Text.ofInt_unbroken l.pc).not_mem hascii hblank, hspaces⟩,
    (Text.ofInt_unbroken l.line).not_mem hascii hblank⟩, hspaces⟩, h.not_mem hascii hblank⟩

theorem trim_printed (h : Text.Unbroken l.method) (hne : l.method ≠ []) :
    Text.trim l.printed = l.printed := by
  have hspaces : Text.Ascii "  " := by decide
  have hbetween := (hspaces.append (Text.ofInt_ascii l.line)).append hspaces
  have htrim := Text.trim_between (Text.ofInt_unbroken l.pc) (Text.ofInt_ascii l.pc)
    (Text.ofInt_ne_nil l.pc) hbetween h hne
  have hprinted : l.printed =
      Text.ofInt l.pc ++ (("  " : Text) ++ Text.ofInt l.line ++ "  " ++ l.method) := by
    simp only [printed, List.append_assoc]
  rw [hprinted]
  exact htrim

theorem words_printed (h : Text.Unbroken l.method) (hne : l.method ≠ []) :
    Text.words l.printed = [Text.ofInt l.pc, Text.ofInt l.line, l.method] := by
  have hprinted : l.printed =
      Text.ofInt l.pc ++ "  " ++ (Text.ofInt l.line ++ "  " ++ l.method) := by
    simp only [printed, List.append_assoc]
  rw [hprinted,
    Text.words_append (Text.ofInt_ascii l.pc) (Text.ofInt_unbroken l.pc) (Text.ofInt_ne_nil l.pc),
    Text.words_append (Text.ofInt_ascii l.line) (Text.ofInt_unbroken l.line)
      (Text.ofInt_ne_nil l.line),
    Text.words_unbroken h hne]

/-- A printed line is no heading. -/
theorem not_heading_printed : (("::" : Text).isPrefixOf l.printed) = false := by
  obtain ⟨b, t, hnumber⟩ := List.exists_cons_of_ne_nil (Text.ofInt_ne_nil l.pc)
  have hcolon : b ≠ Text.byte ':' := by
    have hdigits : ∀ d < 10, Text.digitByte d ≠ Text.byte ':' := by decide
    have hb : b ∈ Text.ofInt l.pc := hnumber ▸ List.mem_cons_self
    rcases Text.mem_ofInt hb with rfl | ⟨d, hd, rfl⟩
    · decide
    · exact hdigits d hd
  have hcolons : ("::" : Text) = [Text.byte ':', Text.byte ':'] := by decide
  rw [printed, hnumber, hcolons]
  simp [List.isPrefixOf, Ne.symm hcolon]

/-- A printed line is read as its entry. -/
theorem readLine?_printed (hpc : IsWord l.pc) (hline : IsWord l.line) (h : Text.Unbroken l.method)
    (hne : l.method ≠ []) : TraceEntry.readLine? l.printed = .ok (some l.entry) := by
  have hprinted : l.printed ≠ [] := by
    intro hnil
    have hmethod := (List.append_eq_nil_iff.mp hnil).2
    exact hne hmethod
  unfold TraceEntry.readLine?
  dsimp only
  rw [trim_printed h hne, not_heading_printed, Bool.or_false, if_neg (by simpa using hprinted),
    words_printed h hne]
  simp only [TraceEntry.readNumber, Text.readInt_ofInt hpc.1 hpc.2,
    Text.readInt_ofInt hline.1 hline.2]
  rfl

end LineInfo

/-! ### The trace of an image -/

/-- The lines of the trace of an image, without the newlines that end them. -/
def traceLines (i : Image) : List Text :=
  (":: " ++ i.buildId) :: (":: PC SourceLine Method" : Text) :: i.lines.map LineInfo.printed

theorem trace_eq_unlines (i : Image) : i.trace = Text.unlines i.traceLines := by
  have hnewline : ("\n" : Text) = [Text.byte '\n'] := by decide
  have hheading :
      (":: PC SourceLine Method\n" : Text) = (":: PC SourceLine Method" : Text) ++ "\n" := by
    decide
  have htraceLine : LineInfo.traceLine = fun l => l.printed ++ [Text.byte '\n'] := by
    funext l
    rw [LineInfo.traceLine, hnewline]
    rfl
  simp only [trace, traceLines, Text.unlines, List.flatMap_cons, List.flatMap_map, htraceLine,
    hheading, hnewline, List.append_assoc]

section Trace

variable {i : Image}

/-- Where neither the id nor a method has white space, the only white space in the lines of the trace
is spaces. -/
theorem not_mem_traceLines (hid : Text.Unbroken i.buildId)
    (hmethods : ∀ l ∈ i.lines, Text.Unbroken l.method) {b : UInt8} (hascii : b < 0x80)
    (hblank : Text.isBlank (Text.asciiPiece b) = true)
    (hheading : b ∉ (":: PC SourceLine Method" : Text)) :
    ∀ line ∈ i.traceLines, b ∉ line := by
  have hstart : (":: PC SourceLine Method" : Text) = (":: " : Text) ++ "PC SourceLine Method" := by
    decide
  have hspace : Text.byte ' ' ∈ (":: PC SourceLine Method" : Text) := by decide
  intro line hline
  rcases List.mem_cons.mp hline with rfl | hline
  · intro hb
    rcases List.mem_append.mp hb with hb | hb
    · exact hheading (hstart ▸ List.mem_append_left _ hb)
    · exact hid.not_mem hascii hblank hb
  rcases List.mem_cons.mp hline with rfl | hline
  · exact hheading
  · obtain ⟨l, hl, rfl⟩ := List.mem_map.mp hline
    exact LineInfo.not_mem_printed (hmethods l hl) hascii hblank fun heq => hheading (heq ▸ hspace)

/-- Then the lines that are read are those that were printed, up to the first that does not fit. -/
theorem readLines_trace (hid : Text.Unbroken i.buildId)
    (hmethods : ∀ l ∈ i.lines, Text.Unbroken l.method) :
    Text.readLines i.trace =
      { lines := i.traceLines.takeWhile fun line => line.length < Text.lineLimit
        tooLong := i.traceLines.any fun line => !decide (line.length < Text.lineLimit) } := by
  have hraw : Text.rawLines i.trace = i.traceLines := by
    rw [trace_eq_unlines]
    exact Text.rawLines_unlines
      (not_mem_traceLines hid hmethods (by decide) (by decide) (by decide))
  have hreturn : ∀ line ∈ i.traceLines, Text.dropReturn line = line := fun line hline =>
    Text.dropReturn_eq_self
      (not_mem_traceLines hid hmethods (by decide) (by decide) (by decide) line hline)
  rw [Text.readLines, hraw]
  congr 1
  refine (List.map_congr_left fun line hline => ?_).trans (List.map_id _)
  exact hreturn line ((List.takeWhile_sublist _).subset hline)

/-- No line is too long exactly if every line of the trace fits the line buffer with its newline. -/
theorem tooLong_trace (hid : Text.Unbroken i.buildId)
    (hmethods : ∀ l ∈ i.lines, Text.Unbroken l.method) :
    (Text.readLines i.trace).tooLong = false ↔
      ∀ line ∈ i.traceLines, line.length + 1 ≤ Text.lineLimit := by
  rw [readLines_trace hid hmethods]
  simp only [List.any_eq_false, Bool.not_eq_true', decide_eq_false_iff_not, not_not]
  exact Iff.rfl

/-- The printed lines are read as their entries. -/
theorem readLines_printed {lines : List LineInfo}
    (h : ∀ l ∈ lines, IsWord l.pc ∧ IsWord l.line ∧ Text.Unbroken l.method ∧ l.method ≠ [])
    (n : Nat) :
    TraceEntry.readLines n (lines.map LineInfo.printed) = .ok (lines.map LineInfo.entry) := by
  induction lines generalizing n with
  | nil => rfl
  | cons l lines ih =>
      obtain ⟨hpc, hline, hmethod, hne⟩ := h l List.mem_cons_self
      exact TraceEntry.readLines_cons.mpr ⟨some l.entry, lines.map LineInfo.entry,
        LineInfo.readLine?_printed hpc hline hmethod hne,
        ih (fun other hother => h other (List.mem_cons_of_mem l hother)) (n + 1), rfl⟩

theorem readLines_traceLines
    (h : ∀ l ∈ i.lines, IsWord l.pc ∧ IsWord l.line ∧ Text.Unbroken l.method ∧ l.method ≠ []) :
    TraceEntry.readLines 1 i.traceLines = .ok (i.lines.map LineInfo.entry) := by
  have hcolons : (":: " : Text) = ("::" : Text) ++ " " := by decide
  have hheading :
      (":: PC SourceLine Method" : Text) = ("::" : Text) ++ " PC SourceLine Method" := by
    decide
  refine TraceEntry.readLines_cons.mpr ⟨none, i.lines.map LineInfo.entry, ?_, ?_, rfl⟩
  · rw [hcolons, List.append_assoc]
    exact TraceEntry.readLine?_heading _
  refine TraceEntry.readLines_cons.mpr
    ⟨none, i.lines.map LineInfo.entry, ?_, readLines_printed h 3, rfl⟩
  rw [hheading]
  exact TraceEntry.readLine?_heading _

end Trace

/-! ### The lines of an image -/

/-- The source lines of a method of a class, with the pcs that they have in the image. -/
def methodLines (c : Class) (m : Method) : List LineInfo :=
  if m.hasCode then
    m.lines.map fun mark => ⟨wordAdd (idOr m.codeOffset) mark.pc, mark.line, (c.member m.sig).text⟩
  else []

/-- The source lines of the methods of some classes. -/
def linesOf (classes : List Class) : List LineInfo :=
  (methodsOf classes).flatMap fun p => methodLines p.1 p.2

theorem isWord_wordAdd (a b : Int) : IsWord (wordAdd a b) := by
  have hlow := Int.le_bmod (x := a + b) (m := 0x10000000000000000) (by decide)
  have hhigh := Int.bmod_lt (x := a + b) (m := 0x10000000000000000) (by decide)
  exact ⟨by unfold wordAdd; omega, by unfold wordAdd; omega⟩

/-- The pc of a line has 64 bits, and its method is not the empty text. -/
theorem mem_linesOf {classes : List Class} {l : LineInfo} (h : l ∈ linesOf classes) :
    IsWord l.pc ∧ l.method ≠ [] := by
  obtain ⟨p, -, hl⟩ := List.mem_flatMap.mp h
  unfold methodLines at hl
  split at hl
  case isTrue =>
      obtain ⟨mark, -, rfl⟩ := List.mem_map.mp hl
      refine ⟨isWord_wordAdd _ _, fun hnil => ?_⟩
      have hdot := (List.append_eq_nil_iff.mp (List.append_eq_nil_iff.mp hnil).1).2
      cases hdot
  case isFalse => cases hl

theorem addMethod_lines {r : Registry} {c : Class} {m : Method} {image image' : Image}
    (hok : addMethod r c image m = .ok image') : image'.lines = image.lines ++ methodLines c m := by
  obtain ⟨natives, -, ⟨hcode, rfl⟩ | ⟨handlers, hcode, -, -, rfl⟩⟩ := addMethod_ok hok
  · simp [methodLines, hcode]
  · simp [methodLines, hcode]

/-- The lines of an image are those of the methods, sorted by their pcs. -/
theorem lines_of_build {plan : Plan} {image : Image} (hbuild : build plan = .ok image) :
    image.lines = (linesOf (plan.registry.classes.map Prod.snd)).mergeSort
      fun a b => a.pc ≤ b.pc := by
  obtain ⟨-, raw, builtins, hclasses, -, rfl⟩ := build_eq_ok.mp hbuild
  have hlines : raw.lines = linesOf (plan.registry.classes.map Prod.snd) := by
    refine foldlM_addClass_accumulates
      (P := fun _ methods i => i.lines = methods.flatMap fun p => methodLines p.1 p.2) rfl ?_
      (fun h _ => h) hclasses
    intro _ methods c m i i' hmethods hm
    rw [addMethod_lines hm, hmethods, List.flatMap_append, List.flatMap_singleton]
  show raw.lines.mergeSort _ = _
  rw [hlines]

/-- The lines of an image are in the order of their pcs. -/
theorem sorted_of_build {plan : Plan} {image : Image} (hbuild : build plan = .ok image) :
    image.lines.Pairwise fun a b => a.pc ≤ b.pc := by
  rw [lines_of_build hbuild]
  exact pairwise_mergeSort_key LineInfo.pc _

theorem mem_lines_of_build {plan : Plan} {image : Image} (hbuild : build plan = .ok image)
    {l : LineInfo} (hl : l ∈ image.lines) : IsWord l.pc ∧ l.method ≠ [] := by
  rw [lines_of_build hbuild] at hl
  exact mem_linesOf ((List.mergeSort_perm _ _).mem_iff.mp hl)

/-- The digits of a byte in an id are no white space. -/
theorem hexPair_not_blank : ∀ n < 256, (Text.padLeft 2 '0' (Text.hex n)).all
    (fun b => !Text.isBlank (Text.asciiPiece b)) = true := by decide +kernel

/-- The text of an id is a word. -/
theorem idText_unbroken (id : Bytes) : Text.Unbroken (idText id) := by
  intro p hp
  rw [Text.pieces_ascii (idText_ascii id).2] at hp
  obtain ⟨b, hb, rfl⟩ := List.mem_map.mp hp
  obtain ⟨⟨byte, k⟩, -, hb⟩ := List.mem_flatMap.mp hb
  rcases List.mem_append.mp hb with hb | hb
  · have hdash : ("-" : Text) = [Text.byte '-'] := by decide
    have hempty : ("" : Text) = [] := by decide
    split at hb
    · rw [hdash] at hb
      cases List.mem_singleton.mp hb
      decide
    · rw [hempty] at hb
      cases hb
  · simpa using List.all_eq_true.mp (hexPair_not_blank byte.toNat byte.toNat_lt) b hb

/-- The trace of an image, whose source lines are numbers of 64 bits, is read back as the lines of the
image exactly if no method has white space in it and every line of the trace fits the line buffer with
its newline. -/
theorem read_trace {plan : Plan} {image : Image} (hbuild : build plan = .ok image)
    (hwords : ∀ l ∈ image.lines, IsWord l.line) :
    TraceTable.read image.trace = .ok ⟨image.lines.map LineInfo.entry⟩ ↔
      (∀ l ∈ image.lines, Text.Unbroken l.method) ∧
        ∀ line ∈ image.traceLines, line.length + 1 ≤ Text.lineLimit := by
  have hid : Text.Unbroken image.buildId := by
    rw [← contentId_of_build hbuild]
    exact idText_unbroken _
  constructor
  · intro hread
    obtain ⟨hfits, hentries⟩ := TraceTable.of_read hread
    have hmethods : ∀ l ∈ image.lines, Text.Unbroken l.method := fun l hl =>
      hentries l.entry (List.mem_map_of_mem hl)
    exact ⟨hmethods, (tooLong_trace hid hmethods).mp hfits⟩
  · rintro ⟨hmethods, hfits⟩
    have hall : ∀ l ∈ image.lines,
        IsWord l.pc ∧ IsWord l.line ∧ Text.Unbroken l.method ∧ l.method ≠ [] := by
      intro l hl
      obtain ⟨hpc, hne⟩ := mem_lines_of_build hbuild hl
      exact ⟨hpc, hwords l hl, hmethods l hl, hne⟩
    have hlines : (Text.readLines image.trace).lines = image.traceLines := by
      rw [readLines_trace hid hmethods]
      exact List.takeWhile_eq_self_iff.mpr fun line hline => decide_eq_true (hfits line hline)
    have hsort : (image.lines.map LineInfo.entry).mergeSort (fun a b => a.pc ≤ b.pc) =
        image.lines.map LineInfo.entry :=
      List.mergeSort_of_pairwise
        (List.pairwise_map.mpr ((sorted_of_build hbuild).imp decide_eq_true))
    unfold TraceTable.read
    dsimp only
    rw [hlines, (tooLong_trace hid hmethods).mpr hfits, readLines_traceLines hall]
    show Except.ok (TraceTable.mk _) = _
    rw [hsort]

end Image

/-- A program of two classes with source lines. In one of them the marks are not in order, two have
the same pc, and its name is not ASCII. -/
def markedSource : Source := .ofDecls [
  .bareRoot,
  .simple false "Zoë" RuntimeSeeds.defaultRoot []
    [{ MethodDecl.simple "run" true [0x00, 0xB1] with lines := [⟨1, 8⟩, ⟨0, 7⟩, ⟨1, 65535⟩] }] [],
  .simple false "Main" RuntimeSeeds.defaultRoot []
    [{ MethodDecl.simple "main" true [0xB1] with lines := [⟨0, 3⟩] }] []]

/-- Options that keep the methods of the program. -/
def markedOptions : LinkOptions := { Program.bareOptions with required := [⟨"Zoë", "run", "()V"⟩] }

namespace Image

/-- The lines of the program, those of one pc in the order of the marks. -/
def markedLines : List LineInfo :=
  [⟨0, 3, "Main.main()V"⟩, ⟨5, 7, "Zoë.run()V"⟩, ⟨6, 8, "Zoë.run()V"⟩, ⟨6, 65535, "Zoë.run()V"⟩]

theorem mergeSort_markedLines : List.mergeSort
    [⟨0, 3, "Main.main()V"⟩, ⟨6, 8, "Zoë.run()V"⟩, ⟨5, 7, "Zoë.run()V"⟩, ⟨6, 65535, "Zoë.run()V"⟩]
    (fun a b : LineInfo => a.pc ≤ b.pc) = markedLines := by
  simp [markedLines, List.mergeSort]

theorem read_trace_marked : ∃ plan image, build plan = .ok image ∧ image.lines = markedLines ∧
    (∀ l ∈ image.lines, IsWord l.line) ∧
    TraceTable.read image.trace = .ok ⟨markedLines.map LineInfo.entry⟩ := by
  obtain ⟨p, image, -, hbuild, hcheck⟩ := Program.exists_image_of_check markedSource markedOptions
    (fun p _ => linesOf (p.plan.registry.classes.map Prod.snd) =
      [⟨0, 3, "Main.main()V"⟩, ⟨6, 8, "Zoë.run()V"⟩, ⟨5, 7, "Zoë.run()V"⟩,
        ⟨6, 65535, "Zoë.run()V"⟩]) (by decide +kernel)
  have hlines : image.lines = markedLines := by
    rw [lines_of_build hbuild, hcheck, mergeSort_markedLines]
  have hwords : ∀ l ∈ image.lines, IsWord l.line := by
    rw [hlines]
    decide
  refine ⟨p.plan, image, hbuild, hlines, hwords, ?_⟩
  rw [← hlines]
  refine (read_trace hbuild hwords).mpr ⟨?_, fun line hline => ?_⟩
  · rw [hlines]
    decide
  · have hid := length_contentId_le image
    rw [contentId_of_build hbuild] at hid
    rw [traceLines, hlines] at hline
    rcases List.mem_cons.mp hline with rfl | hline
    · rw [List.length_append]
      exact (Nat.add_le_add_right (Nat.add_le_add_left hid _) 1).trans (by decide)
    · have hrest : ∀ line ∈
          (":: PC SourceLine Method" : Text) :: markedLines.map LineInfo.printed,
          line.length + 1 ≤ Text.lineLimit := by decide
      exact hrest line hline

end Image

end ClassLinker
