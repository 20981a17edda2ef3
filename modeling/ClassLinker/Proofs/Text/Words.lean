import ClassLinker.Proofs.Text.Pieces

/-! Words between white space, whatever bytes they have. White space never starts in the middle of a
character, so a text that is put together from words and white space has the pieces of its parts; and
every text falls apart into white space and its words in turn. -/

namespace ClassLinker

/-! ### Texts put together -/

/-- The first byte of a text is not one that goes on with a character. -/
def Text.Detached (t : Text) : Prop := ∀ b ∈ t.head?, Text.isContinuation b = false

namespace Text

variable {s t u w : Text} {p : Piece}

theorem pair?_continuation {a b : UInt8} {code : Nat} (h : pair? a b = some code) :
    isContinuation b = true := by
  grind [pair?]

theorem triple?_continuation {a b c : UInt8} {code : Nat} (h : triple? a b c = some code) :
    isContinuation b = true ∧ isContinuation c = true := by
  grind [triple?, isContinuation]

theorem quadruple?_continuation {a b c d : UInt8} {code : Nat}
    (h : quadruple? a b c d = some code) :
    isContinuation b = true ∧ isContinuation c = true ∧ isContinuation d = true := by
  grind [quadruple?, isContinuation]

theorem detached_of_ascii {b : UInt8} (h : b < 0x80) (t : Text) : Detached (b :: t) := by
  intro c hc
  cases hc
  grind [isContinuation]

end Text

namespace Piece.Before

variable {p : Piece} {t u : Text}

/-- A piece that is not stray stands before every text. -/
theorem of_char {code : Nat} {bytes : Text} (h : (Piece.char code bytes).Before t) (u : Text) :
    (Piece.char code bytes).Before u := by
  cases h with
  | ascii hascii => exact .ascii hascii
  | pair hlead hpair => exact .pair hlead hpair
  | triple hlead hpair htriple => exact .triple hlead hpair htriple
  | quadruple hlead hpair htriple hquadruple => exact .quadruple hlead hpair htriple hquadruple

theorem detached {code : Nat} {bytes : Text} (h : (Piece.char code bytes).Before t) (u : Text) :
    Text.Detached (bytes ++ u) := by
  cases h with
  | ascii hascii => exact Text.detached_of_ascii hascii _
  | pair hlead hpair => grind [Text.Detached, Text.pair?, Text.isContinuation]
  | triple hlead hpair htriple => grind [Text.Detached, Text.triple?, Text.isContinuation]
  | quadruple hlead hpair htriple hquadruple =>
      grind [Text.Detached, Text.quadruple?, Text.isContinuation]

/-- A stray byte stays stray before another text, where the bytes that come to stand behind it do not
all go on with a character. -/
theorem of_prefixes (h : p.Before t)
    (hcut : ∀ bs, bs <+: u → bs <+: t ∨ ∃ b ∈ bs, Text.isContinuation b = false) : p.Before u := by
  cases p with
  | char code bytes => exact h.of_char u
  | stray a =>
      cases h with
      | stray hlead hpair htriple hquadruple =>
          refine .stray hlead (fun b hb => ?_) (fun b c hb => ?_) fun b c d hb => ?_
          all_goals
            rcases hcut _ hb with hb | ⟨x, hx, hout⟩
          · exact hpair b hb
          · refine Option.eq_none_iff_forall_ne_some.mpr fun code hcode => ?_
            have hon := Text.pair?_continuation hcode
            grind
          · exact htriple b c hb
          · refine Option.eq_none_iff_forall_ne_some.mpr fun code hcode => ?_
            have hon := Text.triple?_continuation hcode
            grind
          · exact hquadruple b c d hb
          · refine Option.eq_none_iff_forall_ne_some.mpr fun code hcode => ?_
            have hon := Text.quadruple?_continuation hcode
            grind

theorem append (h : p.Before t) (hu : Text.Detached u) : p.Before (t ++ u) := by
  refine h.of_prefixes fun bs hbs => ?_
  rcases List.prefix_or_prefix_of_prefix hbs (List.prefix_append t u) with hbs' | ⟨v, rfl⟩
  · exact .inl hbs'
  cases v with
  | nil =>
      rw [List.append_nil]
      exact .inl List.prefix_rfl
  | cons b v =>
      obtain ⟨rest, rfl⟩ := (List.prefix_append_right_inj t).mp hbs
      exact .inr ⟨b, by simp, hu b rfl⟩

end Piece.Before

namespace Text

/-- What holds of the empty text and of a piece before a text of which it holds, holds of all texts. -/
@[elab_as_elim]
theorem pieceInduction {P : Text → Prop} (nil : P [])
    (piece : ∀ (p : Piece) (rest : Text), p.Before rest → P rest → P (p.bytes ++ rest)) (t : Text) :
    P t := by
  induction hps : pieces t generalizing t with
  | nil =>
      rw [← ofPieces_pieces t, hps]
      exact nil
  | cons p ps ih =>
      obtain ⟨rest, rfl, hbefore, hrest⟩ := exists_of_pieces_cons hps
      exact piece p rest hbefore (ih rest hrest.symm)

theorem pieces_append_detached (t : Text) (hu : Detached u) :
    pieces (t ++ u) = pieces t ++ pieces u := by
  induction t using pieceInduction with
  | nil => rfl
  | piece p rest hbefore ih =>
      rw [List.append_assoc, pieces_append (hbefore.append hu), pieces_append hbefore, ih,
        List.cons_append]

/-! ### White space -/

/-- A text of white space only. -/
def Blank (t : Text) : Prop := ∀ p ∈ pieces t, isBlank p = true

instance : DecidablePred Blank := fun t => (pieces t).decidableBAll (isBlank · = true)

/-- A text that is empty or starts with white space. -/
def Spaced (t : Text) : Prop := ∀ p ∈ (pieces t).head?, isBlank p = true

theorem Blank.spaced (h : Blank s) : Spaced s := fun p hp => h p (List.mem_of_head? hp)

theorem Spaced.detached (h : Spaced t) : Detached t := by
  cases t using pieceInduction with
  | nil => exact nofun
  | piece p rest hbefore =>
      have hp := h p (by rw [pieces_append hbefore]; rfl)
      cases p with
      | char code bytes => exact hbefore.detached rest
      | stray b => cases hp

/-- White space is whole characters, so it can stand before every text. -/
theorem Blank.pieces_append (h : Blank s) (t : Text) : pieces (s ++ t) = pieces s ++ pieces t := by
  induction s using pieceInduction with
  | nil => rfl
  | piece p rest hbefore ih =>
      rw [Blank, Text.pieces_append hbefore, List.forall_mem_cons] at h
      cases p with
      | char code bytes =>
          rw [List.append_assoc, Text.pieces_append (hbefore.of_char (rest ++ t)),
            Text.pieces_append hbefore, ih h.2, List.cons_append]
      | stray b => cases h.1

theorem Blank.append (hs : Blank s) (ht : Blank t) : Blank (s ++ t) := by
  intro p hp
  rw [hs.pieces_append] at hp
  exact (List.mem_append.mp hp).elim (hs p) (ht p)

/-- White space before a text. -/
theorem Blank.spaced_append (hs : Blank s) (hne : s ≠ []) (t : Text) : Spaced (s ++ t) := by
  intro p hp
  rw [hs.pieces_append, List.head?_append_of_ne_nil _ (pieces_ne_nil hne)] at hp
  exact hs p (List.mem_of_head? hp)

theorem Blank.not_mem (h : Blank s) {b : UInt8} (hascii : b < 0x80)
    (hsolid : isBlank (asciiPiece b) = false) : b ∉ s := by
  intro hb
  rw [h _ (asciiPiece_mem_pieces hb hascii)] at hsolid
  cases hsolid

/-! ### Words -/

theorem words_blank_append (hs : Blank s) (t : Text) : words (s ++ t) = words t := by
  rw [words, hs.pieces_append, runs_separators hs, words]

/-- A word goes up to white space or the end. -/
theorem words_word_append (hw : Unbroken w) (hne : w ≠ []) (ht : Spaced t) :
    words (w ++ t) = w :: words t := by
  rw [words, pieces_append_detached w ht.detached, runs_append (pieces_ne_nil hne) hw ht,
    List.map_cons, ofPieces_pieces, words]

theorem runs_eq_nil_iff {sep : Piece → Bool} {ps : List Piece} :
    runs sep ps = [] ↔ ∀ p ∈ ps, sep p = true := by
  induction ps with
  | nil => simp [runs]
  | cons p ps ih =>
      cases hp : sep p with
      | true => simp [runs_cons_separator hp, ih, hp]
      | false => simp [runs_cons hp, hp]

/-- Pieces with a run fall apart into separators, the run, the separators behind it, and the rest. -/
theorem exists_of_runs_cons {sep : Piece → Bool} {ps run : List Piece} {others : List (List Piece)}
    (h : runs sep ps = run :: others) :
    ∃ before gap rest, ps = before ++ (run ++ (gap ++ rest)) ∧ run ≠ [] ∧
      (∀ p ∈ before, sep p = true) ∧ (∀ p ∈ gap, sep p = true) ∧ (others ≠ [] → gap ≠ []) ∧
      runs sep rest = others := by
  have hbefore : ∀ {qs : List Piece}, ∀ p ∈ qs.takeWhile sep, sep p = true := fun p hp =>
    List.mem_takeWhile_imp hp
  have hskip : ∀ qs : List Piece, runs sep qs = runs sep (qs.dropWhile sep) := fun qs => by
    conv_lhs => rw [← List.takeWhile_append_dropWhile (p := sep) (l := qs)]
    exact runs_separators hbefore
  obtain ⟨p, qs, hqs⟩ : ∃ p qs, ps.dropWhile sep = p :: qs := by
    refine List.exists_cons_of_ne_nil fun hnil => ?_
    rw [hskip, hnil] at h
    cases h
  have hp : sep p = false := by
    have hhead := List.head?_dropWhile_not sep ps
    rwa [hqs] at hhead
  rw [hskip, hqs, runs_cons hp, List.cons.injEq] at h
  obtain ⟨rfl, hothers⟩ := h
  refine ⟨ps.takeWhile sep, (qs.dropWhile fun q => !sep q).takeWhile sep,
    (qs.dropWhile fun q => !sep q).dropWhile sep, ?_, List.cons_ne_nil _ _, hbefore, hbefore, ?_, ?_⟩
  · rw [List.takeWhile_append_dropWhile, List.cons_append, List.takeWhile_append_dropWhile, ← hqs,
      List.takeWhile_append_dropWhile]
  · -- Behind the run stands a separator or nothing, and behind nothing there is no other run.
    intro hne hnil
    refine hne ?_
    rw [← hothers]
    cases hd : qs.dropWhile fun q => !sep q with
    | nil => rfl
    | cons q ds =>
        have hhead := List.head?_dropWhile_not (fun q => !sep q) qs
        rw [hd] at hhead hnil
        have hq : sep q = true := by simpa using hhead
        rw [List.takeWhile_cons_of_pos hq] at hnil
        cases hnil
  · rw [← hothers]
    exact (hskip _).symm

theorem words_eq_nil_iff : words t = [] ↔ Blank t := by
  rw [words, List.map_eq_nil_iff, runs_eq_nil_iff, Blank]

theorem ofPieces_eq_nil_iff {ps : List Piece} (h : ps <:+: pieces t) : ofPieces ps = [] ↔ ps = [] := by
  constructor
  · intro hnil
    rw [← pieces_of_cut h, hnil, pieces]
  · rintro rfl
    rfl

theorem trim_eq_nil_iff : trim t = [] ↔ Blank t := by
  have hcut : (((pieces t).dropWhile isBlank).rdropWhile isBlank) <:+: pieces t :=
    (List.rdropWhile_prefix isBlank _).isInfix.trans (List.dropWhile_suffix isBlank).isInfix
  rw [trim_eq_rdropWhile, ofPieces_eq_nil_iff hcut, List.rdropWhile_eq_nil_iff]
  constructor
  · intro hall
    have hnil : (pieces t).dropWhile isBlank = [] := by
      by_contra hne
      obtain ⟨p, ps, hps⟩ := List.exists_cons_of_ne_nil hne
      have hhead := List.head?_dropWhile_not isBlank (pieces t)
      rw [hps] at hhead hall
      exact Bool.false_ne_true (hhead.symm.trans (hall p List.mem_cons_self))
    exact List.dropWhile_eq_nil_iff.mp hnil
  · intro hall p hp
    exact hall p ((List.dropWhile_suffix isBlank).subset hp)

/-- A text falls apart into white space, its first word, the white space behind it, and the rest. -/
theorem exists_of_words_cons {ws : List Text} (h : words t = w :: ws) :
    ∃ before gap rest, t = before ++ (w ++ (gap ++ rest)) ∧ Blank before ∧ Unbroken w ∧ w ≠ [] ∧
      Blank gap ∧ (ws ≠ [] → gap ≠ []) ∧ words rest = ws := by
  have hword := unbroken_of_mem_words (h ▸ List.mem_cons_self : w ∈ words t)
  obtain ⟨run, others, hruns, rfl, rfl⟩ := List.map_eq_cons_iff.mp h
  obtain ⟨before, gap, rest, hsplit, hne, hbefore, hgap, hnext, hrest⟩ := exists_of_runs_cons hruns
  have hin_before : before <:+: pieces t := ⟨[], run ++ (gap ++ rest), hsplit.symm⟩
  have hin_run : run <:+: pieces t := ⟨before, gap ++ rest, by rw [hsplit, List.append_assoc]⟩
  have hin_gap : gap <:+: pieces t :=
    ⟨before ++ run, rest, by rw [hsplit]; simp only [List.append_assoc]⟩
  have hin_rest : rest <:+: pieces t :=
    ⟨before ++ (run ++ gap), [], by rw [hsplit]; simp only [List.append_assoc, List.append_nil]⟩
  refine ⟨ofPieces before, ofPieces gap, ofPieces rest, ?_, ?_, hword,
    (ofPieces_eq_nil_iff hin_run).not.mpr hne, ?_, fun hsome => ?_, ?_⟩
  · conv_lhs => rw [← ofPieces_pieces t, hsplit]
    simp only [ofPieces_append]
  · rwa [Blank, pieces_of_cut hin_before]
  · rwa [Blank, pieces_of_cut hin_gap]
  · refine (ofPieces_eq_nil_iff hin_gap).not.mpr (hnext fun hnil => hsome ?_)
    rw [hnil, List.map_nil]
  · rw [words, pieces_of_cut hin_rest, hrest]

theorem ne_nil_of_mem_words (h : w ∈ words t) : w ≠ [] := by
  induction hws : words t generalizing t with
  | nil =>
      rw [hws] at h
      cases h
  | cons v ws ih =>
      obtain ⟨before, gap, rest, -, -, -, hne, -, -, hrest⟩ := exists_of_words_cons hws
      rw [hws, List.mem_cons] at h
      rcases h with rfl | h
      · exact hne
      · exact ih (hrest ▸ h) hrest

theorem subset_of_mem_words (h : w ∈ words t) : w ⊆ t := by
  induction hws : words t generalizing t with
  | nil =>
      rw [hws] at h
      cases h
  | cons v ws ih =>
      obtain ⟨before, gap, rest, rfl, -, -, -, -, -, hrest⟩ := exists_of_words_cons hws
      rw [hws, List.mem_cons] at h
      intro b hb
      simp only [List.mem_append]
      rcases h with rfl | h
      · exact .inr (.inl hb)
      · exact .inr (.inr (.inr (ih (hrest ▸ h) hrest hb)))

/-- White space behind a text adds no word. -/
theorem words_append_blank (t : Text) (hs : Blank s) : words (t ++ s) = words t := by
  induction hws : words t generalizing t with
  | nil => exact words_eq_nil_iff.mpr ((words_eq_nil_iff.mp hws).append hs)
  | cons w ws ih =>
      obtain ⟨before, gap, rest, rfl, hbefore, hw, hne, hgap, hsome, hrest⟩ := exists_of_words_cons hws
      have hspaced : Spaced (gap ++ (rest ++ s)) := by
        by_cases hnil : gap = []
        · have hblank : Blank rest := words_eq_nil_iff.mp (hrest.trans (not_imp_not.mp hsome (by simpa)))
          exact (hgap.append (hblank.append hs)).spaced
        · exact hgap.spaced_append hnil _
      simp only [List.append_assoc]
      rw [words_blank_append hbefore, words_word_append hw hne hspaced, words_blank_append hgap,
        ih rest hrest]

/-! ### Bytes in place of others -/

section Replace

variable {old new : UInt8}

theorem replaceByte_append (s t : Text) :
    replaceByte old new (s ++ t) = replaceByte old new s ++ replaceByte old new t :=
  List.map_append

theorem replaceByte_of_not_mem (h : old ∉ t) : replaceByte old new t = t := by
  refine (List.map_congr_left fun b hb => if_neg ?_).trans (List.map_id' t)
  rintro rfl
  exact h hb

theorem mem_replaceByte {b : UInt8} :
    b ∈ replaceByte old new t ↔ (b ∈ t ∧ b ≠ old) ∨ (old ∈ t ∧ b = new) := by
  simp only [replaceByte, List.mem_map]
  grind

/-- What replacing an ASCII byte by another one does to the pieces of a text. -/
theorem pieces_replaceByte (hold : old < 0x80) (hnew : new < 0x80) (t : Text) :
    pieces (replaceByte old new t) =
      (pieces t).map fun p => if p = asciiPiece old then asciiPiece new else p := by
  induction t using pieceInduction with
  | nil => rfl
  | piece p rest hbefore ih =>
      rw [replaceByte_append, pieces_append hbefore, List.map_cons, ← ih]
      by_cases hp : p = asciiPiece old
      · have hbytes : replaceByte old new (asciiPiece old).bytes = (asciiPiece new).bytes := by
          simp [replaceByte, asciiPiece, Piece.bytes]
        rw [if_pos hp, hp, hbytes]
        exact pieces_append (.ascii hnew)
      · have hbytes : replaceByte old new p.bytes = p.bytes :=
          replaceByte_of_not_mem fun hmem => hp (hbefore.eq_asciiPiece hmem hold)
        rw [if_neg hp, hbytes]
        refine pieces_append (hbefore.of_prefixes fun bs hbs => ?_)
        obtain ⟨cs, hcs, rfl⟩ := List.prefix_map_iff.mp hbs
        by_cases hmem : old ∈ cs
        · have hout : isContinuation new = false := detached_of_ascii hnew [] new rfl
          exact .inr ⟨new, mem_replaceByte.mpr (.inr ⟨hmem, rfl⟩), hout⟩
        · have hsame : replaceByte old new cs = cs := replaceByte_of_not_mem hmem
          rw [replaceByte] at hsame
          rw [hsame]
          exact .inl hcs

theorem unbroken_replaceByte (hold : old < 0x80) (hnew : new < 0x80)
    (hsolid : isBlank (asciiPiece old) = false) (hsolid' : isBlank (asciiPiece new) = false) :
    Unbroken (replaceByte old new t) ↔ Unbroken t := by
  rw [Unbroken, pieces_replaceByte hold hnew, List.forall_mem_map, Unbroken]
  refine forall₂_congr fun p _ => ?_
  split
  · rename_i hp
    rw [hp, hsolid, hsolid']
  · rfl

end Replace

end Text

end ClassLinker
