import Mathlib.Data.List.DropRight
import Mathlib.Tactic.Common
import ClassLinker.Text.Blank

/-! Pieces of texts. What is cut out of a text between pieces has the same pieces on its own, also
where stray bytes stand; so the words of a text are without white space, and a text that is put
together from words and blanks falls apart into the words again. -/

namespace ClassLinker

/-! ### A piece at the start of a text -/

/-- A piece that is read when its bytes stand before a text. A stray byte stands there only as long as
it does not start a character with the bytes after it. -/
inductive Piece.Before : Piece → Text → Prop
  | ascii {a : UInt8} {t : Text} (hascii : a < 0x80) : Before (.char a.toNat [a]) t
  | pair {a b : UInt8} {code : Nat} {t : Text} (hlead : ¬ a < 0x80)
      (hpair : Text.pair? a b = some code) : Before (.char code [a, b]) t
  | triple {a b c : UInt8} {code : Nat} {t : Text} (hlead : ¬ a < 0x80)
      (hpair : Text.pair? a b = none) (htriple : Text.triple? a b c = some code) :
      Before (.char code [a, b, c]) t
  | quadruple {a b c d : UInt8} {code : Nat} {t : Text} (hlead : ¬ a < 0x80)
      (hpair : Text.pair? a b = none) (htriple : Text.triple? a b c = none)
      (hquadruple : Text.quadruple? a b c d = some code) : Before (.char code [a, b, c, d]) t
  | stray {a : UInt8} {t : Text} (hlead : ¬ a < 0x80)
      (hpair : ∀ b, [b] <+: t → Text.pair? a b = none)
      (htriple : ∀ b c, [b, c] <+: t → Text.triple? a b c = none)
      (hquadruple : ∀ b c d, [b, c, d] <+: t → Text.quadruple? a b c d = none) : Before (.stray a) t

namespace Piece.Before

variable {p : Piece} {t t' : Text}

/-- Of the text behind a piece only the start matters. -/
theorem mono (h : p.Before t) (hstart : t' <+: t) : p.Before t' := by
  cases h with
  | ascii hascii => exact .ascii hascii
  | pair hlead hpair => exact .pair hlead hpair
  | triple hlead hpair htriple => exact .triple hlead hpair htriple
  | quadruple hlead hpair htriple hquadruple => exact .quadruple hlead hpair htriple hquadruple
  | stray hlead hpair htriple hquadruple =>
      exact .stray hlead (fun b hb => hpair b (hb.trans hstart))
        (fun b c hb => htriple b c (hb.trans hstart))
        (fun b c d hb => hquadruple b c d (hb.trans hstart))

end Piece.Before

namespace Text

theorem pieces_append {p : Piece} {t : Text} (h : p.Before t) :
    pieces (p.bytes ++ t) = p :: pieces t := by
  cases h with
  | ascii hascii =>
      rw [Piece.bytes, pieces.eq_def]
      exact if_pos hascii
  | pair hlead hpair =>
      rw [Piece.bytes, pieces.eq_def]
      simp [hlead, hpair]
  | triple hlead hpair htriple =>
      rw [Piece.bytes, pieces.eq_def]
      simp [hlead, hpair, htriple]
  | quadruple hlead hpair htriple hquadruple =>
      rw [Piece.bytes, pieces.eq_def]
      simp [hlead, hpair, htriple, hquadruple]
  | stray hlead hpair htriple hquadruple =>
      rw [Piece.bytes, pieces.eq_def]
      rcases t with _ | ⟨b, _ | ⟨c, _ | ⟨d, t⟩⟩⟩
      · simp [hlead, pieces]
      · simp [hlead, hpair b]
      · simp [hlead, hpair b, htriple b c]
      · simp [hlead, hpair b, htriple b c, hquadruple b c d]

/-- Every text but the empty one starts with a piece. -/
theorem exists_before {t : Text} (h : t ≠ []) :
    ∃ (p : Piece) (rest : Text), t = p.bytes ++ rest ∧ p.Before rest := by
  fun_cases pieces t with
  | case1 => exact absurd rfl h
  | case2 a t hascii => exact ⟨_, t, rfl, .ascii hascii⟩
  | case3 a hlead =>
      exact ⟨.stray a, [], rfl, .stray hlead (by simp) (by simp) (by simp)⟩
  | case4 a hlead b t code hpair => exact ⟨_, t, rfl, .pair hlead hpair⟩
  | case5 a hlead b hpair =>
      exact ⟨.stray a, [b], rfl, .stray hlead (by simpa using hpair) (by simp) (by simp)⟩
  | case6 a hlead b hpair c t code htriple => exact ⟨_, t, rfl, .triple hlead hpair htriple⟩
  | case7 a hlead b hpair c htriple =>
      exact ⟨.stray a, [b, c], rfl,
        .stray hlead (by simpa using hpair) (by simpa using htriple) (by simp)⟩
  | case8 a hlead b hpair c htriple d t code hquadruple =>
      exact ⟨_, t, rfl, .quadruple hlead hpair htriple hquadruple⟩
  | case9 a hlead b hpair c htriple d t hquadruple =>
      exact ⟨.stray a, b :: c :: d :: t, rfl,
        .stray hlead (by simpa using hpair) (by simpa using htriple) (by simp_all)⟩

theorem exists_of_pieces_cons {t : Text} {p : Piece} {ps : List Piece} (h : pieces t = p :: ps) :
    ∃ rest, t = p.bytes ++ rest ∧ p.Before rest ∧ ps = pieces rest := by
  have hne : t ≠ [] := by
    rintro rfl
    cases h
  obtain ⟨q, rest, rfl, hbefore⟩ := exists_before hne
  rw [pieces_append hbefore] at h
  cases h
  exact ⟨rest, rfl, hbefore, rfl⟩

/-! ### Parts of a text -/

theorem ofPieces_cons (p : Piece) (ps : List Piece) : ofPieces (p :: ps) = p.bytes ++ ofPieces ps :=
  List.flatMap_cons

theorem ofPieces_append (ps qs : List Piece) : ofPieces (ps ++ qs) = ofPieces ps ++ ofPieces qs :=
  List.flatMap_append

theorem pieces_ne_nil {t : Text} (h : t ≠ []) : pieces t ≠ [] := by
  intro hnil
  rw [← ofPieces_pieces t, hnil] at h
  exact h rfl

/-- What is left of a text after some of its pieces has the pieces that are left. -/
theorem pieces_of_append {t : Text} {ps qs : List Piece} (h : pieces t = ps ++ qs) :
    pieces (ofPieces qs) = qs := by
  induction ps generalizing t with
  | nil => rw [← List.nil_append qs, ← h, ofPieces_pieces]
  | cons p ps ih =>
      obtain ⟨rest, -, -, hrest⟩ := exists_of_pieces_cons h
      exact ih hrest.symm

/-- The first pieces of a text are the pieces of what they were read from. -/
theorem pieces_of_append_left {t : Text} {ps qs : List Piece} (h : pieces t = ps ++ qs) :
    pieces (ofPieces ps) = ps := by
  induction ps generalizing t with
  | nil => rfl
  | cons p ps ih =>
      obtain ⟨rest, -, hbefore, hrest⟩ := exists_of_pieces_cons h
      replace hrest : pieces rest = ps ++ qs := hrest.symm
      have hstart : ofPieces ps <+: rest := by
        rw [← ofPieces_pieces rest, hrest, ofPieces_append]
        exact List.prefix_append _ _
      rw [ofPieces_cons, pieces_append (hbefore.mono hstart), ih hrest]

/-- What is cut out of a text between pieces has the pieces that it was cut out with. -/
theorem pieces_of_cut {t : Text} {ps : List Piece} (h : ps <:+: pieces t) :
    pieces (ofPieces ps) = ps := by
  obtain ⟨before, after, hparts⟩ := h
  exact pieces_of_append (pieces_of_append_left hparts.symm)

/-! ### ASCII -/

/-- The piece of an ASCII byte. -/
def asciiPiece (b : UInt8) : Piece := .char b.toNat [b]

/-- A text of ASCII bytes. -/
def Ascii (t : Text) : Prop := ∀ b ∈ t, b < 0x80

instance : DecidablePred Ascii := fun t => t.decidableBAll (· < 0x80)

theorem Ascii.append {s t : Text} (hs : Ascii s) (ht : Ascii t) : Ascii (s ++ t) := by
  intro b hb
  rcases List.mem_append.mp hb with hb | hb
  · exact hs b hb
  · exact ht b hb

/-- ASCII bytes are pieces by themselves, whatever comes after them. -/
theorem pieces_ascii_append {s : Text} (h : Ascii s) (t : Text) :
    pieces (s ++ t) = s.map asciiPiece ++ pieces t := by
  induction s with
  | nil => rfl
  | cons b s ih =>
      have hbefore : (asciiPiece b).Before (s ++ t) := .ascii (h b List.mem_cons_self)
      rw [List.map_cons, List.cons_append, List.cons_append,
        ← ih fun c hc => h c (List.mem_cons_of_mem b hc)]
      exact pieces_append hbefore

theorem pair?_not_ascii {a b : UInt8} {code : Nat} (h : pair? a b = some code) : ¬ b < 0x80 := by
  grind [pair?, isContinuation]

theorem triple?_not_ascii {a b c : UInt8} {code : Nat} (h : triple? a b c = some code) :
    ¬ b < 0x80 ∧ ¬ c < 0x80 := by
  grind [triple?, isContinuation]

theorem quadruple?_not_ascii {a b c d : UInt8} {code : Nat} (h : quadruple? a b c d = some code) :
    ¬ b < 0x80 ∧ ¬ c < 0x80 ∧ ¬ d < 0x80 := by
  grind [quadruple?, isContinuation]

end Text

/-- An ASCII byte in a piece is all of it. -/
theorem Piece.Before.eq_asciiPiece {p : Piece} {t : Text} {b : UInt8} (h : p.Before t)
    (hb : b ∈ p.bytes) (hascii : b < 0x80) : p = Text.asciiPiece b := by
  cases h with
  | ascii =>
      cases List.mem_singleton.mp hb
      rfl
  | pair hlead hpair =>
      have := Text.pair?_not_ascii hpair
      grind [Piece.bytes]
  | triple hlead hpair htriple =>
      have := Text.triple?_not_ascii htriple
      grind [Piece.bytes]
  | quadruple hlead hpair htriple hquadruple =>
      have := Text.quadruple?_not_ascii hquadruple
      grind [Piece.bytes]
  | stray hlead =>
      cases List.mem_singleton.mp hb
      exact absurd hascii hlead

namespace Text

/-- An ASCII byte of a text is one of its pieces. -/
theorem asciiPiece_mem_pieces {t : Text} {b : UInt8} (hb : b ∈ t) (hascii : b < 0x80) :
    asciiPiece b ∈ pieces t := by
  rw [← ofPieces_pieces t] at hb
  obtain ⟨p, hp, hbp⟩ := List.mem_flatMap.mp hb
  obtain ⟨before, after, hparts⟩ := List.append_of_mem hp
  have hrest := pieces_of_append hparts
  obtain ⟨rest, -, hbefore, -⟩ := exists_of_pieces_cons hrest
  rwa [← hbefore.eq_asciiPiece hbp hascii]

/-! ### Words -/

/-- A text without white space. -/
def Unbroken (t : Text) : Prop := ∀ p ∈ pieces t, isBlank p = false

instance : DecidablePred Unbroken := fun t => (pieces t).decidableBAll (isBlank · = false)

theorem Unbroken.not_mem {t : Text} (h : Unbroken t) {b : UInt8} (hascii : b < 0x80)
    (hblank : isBlank (asciiPiece b) = true) : b ∉ t := by
  intro hb
  rw [h _ (asciiPiece_mem_pieces hb hascii)] at hblank
  cases hblank

theorem pieces_ascii {s : Text} (h : Ascii s) : pieces s = s.map asciiPiece := by
  have happend := pieces_ascii_append h []
  rwa [List.append_nil, show pieces [] = [] from rfl, List.append_nil] at happend

section Runs

variable {sep : Piece → Bool} {p : Piece} {ps qs run : List Piece}

theorem runs_cons_separator (hp : sep p = true) : runs sep (p :: ps) = runs sep ps := by
  rw [runs.eq_def]
  exact if_pos hp

/-- The first run goes on up to the next separator. -/
theorem runs_cons (hp : sep p = false) : runs sep (p :: ps) =
    (p :: ps.takeWhile fun q => !sep q) :: runs sep (ps.dropWhile fun q => !sep q) := by
  induction ps generalizing p with
  | nil => rw [runs, if_neg (by rw [hp]; decide)]; rfl
  | cons q ps ih =>
      rw [runs, if_neg (by rw [hp]; decide)]
      cases hq : sep q with
      | true => simp [hq]
      | false => simp [hq, ih hq]

theorem runs_separators (h : ∀ p ∈ ps, sep p = true) : runs sep (ps ++ qs) = runs sep qs := by
  induction ps with
  | nil => rfl
  | cons p ps ih =>
      rw [List.cons_append, runs_cons_separator (h p List.mem_cons_self)]
      exact ih fun q hq => h q (List.mem_cons_of_mem p hq)

/-- Pieces up to a separator or the end are a run. -/
theorem runs_append (hne : ps ≠ []) (hps : ∀ p ∈ ps, sep p = false)
    (hqs : ∀ q ∈ qs.head?, sep q = true) : runs sep (ps ++ qs) = ps :: runs sep qs := by
  obtain ⟨p, ps, rfl⟩ := List.exists_cons_of_ne_nil hne
  have hrest : ∀ q ∈ ps, (!sep q) = true := fun q hq => by
    rw [hps q (List.mem_cons_of_mem p hq)]
    rfl
  rw [List.cons_append, runs_cons (hps p List.mem_cons_self), List.takeWhile_append_of_pos hrest,
    List.dropWhile_append_of_pos hrest]
  cases qs with
  | nil => simp
  | cons q qs => simp [hqs q rfl]

/-- A run is cut out of the pieces between separators. -/
theorem cut_of_mem_runs (h : run ∈ runs sep ps) : run <:+: ps ∧ ∀ p ∈ run, sep p = false := by
  induction hn : ps.length using Nat.strong_induction_on generalizing ps with
  | _ n ih =>
    cases ps with
    | nil => cases h
    | cons p ps =>
        subst hn
        cases hp : sep p with
        | true =>
            rw [runs_cons_separator hp] at h
            obtain ⟨hcut, hsolid⟩ := ih ps.length (Nat.lt_succ_self _) h rfl
            exact ⟨hcut.trans (List.suffix_cons p ps).isInfix, hsolid⟩
        | false =>
            rw [runs_cons hp] at h
            rcases List.mem_cons.mp h with rfl | h
            · have hstart : (ps.takeWhile fun q => !sep q) <+: ps := List.takeWhile_prefix _
              refine ⟨(List.cons_prefix_cons.mpr ⟨rfl, hstart⟩).isInfix, ?_⟩
              intro q hq
              rcases List.mem_cons.mp hq with rfl | hq
              · exact hp
              · simpa using List.mem_takeWhile_imp hq
            · have hsuffix := List.dropWhile_suffix (l := ps) fun q => !sep q
              obtain ⟨hcut, hsolid⟩ := ih _ (Nat.lt_succ_of_le hsuffix.length_le) h rfl
              exact ⟨hcut.trans (hsuffix.trans (List.suffix_cons p ps)).isInfix, hsolid⟩

end Runs

/-- A word is without white space. -/
theorem unbroken_of_mem_words {t w : Text} (h : w ∈ words t) : Unbroken w := by
  obtain ⟨run, hrun, rfl⟩ := List.mem_map.mp h
  obtain ⟨hcut, hsolid⟩ := cut_of_mem_runs hrun
  intro p hp
  rw [pieces_of_cut hcut] at hp
  exact hsolid p hp

/-- A text without white space is a word. -/
theorem words_unbroken {t : Text} (h : Unbroken t) (hne : t ≠ []) : words t = [t] := by
  have hruns : runs isBlank (pieces t ++ []) = _ := runs_append (pieces_ne_nil hne) h (by simp)
  rw [List.append_nil] at hruns
  rw [words, hruns, List.map_cons, ofPieces_pieces]
  rfl

/-- A word of ASCII bytes, two spaces, and then other words. -/
theorem words_append {w : Text} (hascii : Ascii w) (h : Unbroken w) (hne : w ≠ [])
    (t : Text) : words (w ++ "  " ++ t) = w :: words t := by
  have hspaces : ("  " : Text) = [0x20, 0x20] := by decide
  have hblank : ∀ p ∈ ("  " : Text).map asciiPiece, isBlank p = true := by decide
  rw [words, List.append_assoc, pieces_ascii_append hascii, pieces_ascii_append (by decide),
    runs_append (by simpa using hne) (by rwa [Unbroken, pieces_ascii hascii] at h)
      (by rw [hspaces]; rintro _ ⟨⟩; rfl),
    runs_separators hblank, List.map_cons, ← pieces_ascii hascii, ofPieces_pieces]
  rfl

theorem trim_eq_rdropWhile (t : Text) :
    trim t = ofPieces (((pieces t).dropWhile isBlank).rdropWhile isBlank) := rfl

/-- A text that neither starts nor ends with white space is not trimmed. -/
theorem trim_eq_self {t : Text} (hhead : ∀ p ∈ (pieces t).head?, isBlank p = false)
    (hlast : ∀ p ∈ (pieces t).getLast?, isBlank p = false) : trim t = t := by
  have hleft : (pieces t).dropWhile isBlank = pieces t := by
    cases hpieces : pieces t with
    | nil => rfl
    | cons p ps => exact List.dropWhile_cons_of_neg (by simp [hhead p (by rw [hpieces]; rfl)])
  have hright : (pieces t).rdropWhile isBlank = pieces t := by
    rw [List.rdropWhile_eq_self_iff]
    intro hne
    simp [hlast _ (List.getLast?_eq_some_getLast hne)]
  rw [trim_eq_rdropWhile, hleft, hright, ofPieces_pieces]

/-- A text that starts and ends with a word is not trimmed. -/
theorem trim_between {w t u : Text} (hw : Unbroken w) (hw_ascii : Ascii w) (hw_ne : w ≠ [])
    (ht_ascii : Ascii t) (hu : Unbroken u) (hu_ne : u ≠ []) :
    trim (w ++ (t ++ u)) = w ++ (t ++ u) := by
  have hpieces : pieces (w ++ (t ++ u)) = pieces w ++ (pieces t ++ pieces u) := by
    rw [pieces_ascii_append hw_ascii, pieces_ascii_append ht_ascii, pieces_ascii hw_ascii,
      pieces_ascii ht_ascii]
  apply trim_eq_self
  · intro p hp
    rw [hpieces, List.head?_append_of_ne_nil _ (pieces_ne_nil hw_ne)] at hp
    exact hw p (List.mem_of_head? hp)
  · intro p hp
    rw [hpieces, ← List.append_assoc, List.getLast?_append_of_ne_nil _ (pieces_ne_nil hu_ne)] at hp
    exact hu p (List.mem_of_getLast? hp)

theorem exists_rdropWhile_append {α : Type} {p : α → Bool} {xs : List α}
    (hxs : ∀ x ∈ xs, p x = false) (ys : List α) : ∃ rest, (xs ++ ys).rdropWhile p = xs ++ rest := by
  induction ys using List.reverseRecOn with
  | nil =>
      refine ⟨[], ?_⟩
      rw [List.append_nil, List.rdropWhile_eq_self_iff]
      intro hne
      simp [hxs _ (List.getLast_mem hne)]
  | append_singleton ys y ih =>
      rw [← List.append_assoc, List.rdropWhile_concat]
      split
      · exact ih
      · exact ⟨ys ++ [y], List.append_assoc _ _ _⟩

/-- Trimming keeps what a text starts with before its first white space. -/
theorem exists_trim_append {s : Text} (hascii : Ascii s) (h : Unbroken s) (hne : s ≠ [])
    (t : Text) : ∃ rest, trim (s ++ t) = s ++ rest := by
  have hsolid := h
  rw [Unbroken, pieces_ascii hascii] at hsolid
  have hleft : (s.map asciiPiece ++ pieces t).dropWhile isBlank = s.map asciiPiece ++ pieces t := by
    obtain ⟨b, s, rfl⟩ := List.exists_cons_of_ne_nil hne
    exact List.dropWhile_cons_of_neg (by simp [hsolid (asciiPiece b) List.mem_cons_self])
  obtain ⟨rest, hrest⟩ := exists_rdropWhile_append hsolid (pieces t)
  refine ⟨ofPieces rest, ?_⟩
  rw [trim_eq_rdropWhile, pieces_ascii_append hascii, hleft, hrest, ofPieces_append,
    ← pieces_ascii hascii, ofPieces_pieces]

end Text

end ClassLinker
