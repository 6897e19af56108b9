import SphereFx.Extractor.Cleaner

/-!
# Formatted segments

A message as a sequence of segments, plain or in one of the forms of the markup. The cleaner takes a
wrapped segment out with its text, and the words of the segment are lost with it.
-/

namespace SphereFx.Extractor

open Text

attribute [local instance] decidableBAllChar

/-! ### Segments -/

inductive Wrapping where
  | plain
  | bold
  | italic
  | code
  | link (url : List Char)

/-- The characters of the formatting, and the line break. -/
def formatChars : List Char := ['*', '_', Char.ofNat 96, '[', ']', '(', ')', '<', '>', '&', '\n']

/-- A text without formatting in it, and how it is wrapped. -/
structure Segment where
  text : List Char
  wrapping : Wrapping
  text_plain : ∀ c ∈ text, c ∉ formatChars
  url_plain : ∀ url, wrapping = .link url → '(' ∉ url ∧ ')' ∉ url

namespace Wrapping

def isPlain : Wrapping → Bool
  | plain => true
  | _ => false

def written (text : List Char) : Wrapping → List Char
  | plain => text
  | bold => '*' :: '*' :: (text ++ ['*', '*'])
  | italic => '_' :: '_' :: (text ++ ['_', '_'])
  | code => Char.ofNat 96 :: (text ++ [Char.ofNat 96])
  | link url => '[' :: (text ++ ']' :: '(' :: (url ++ [')']))

/-- The address of a link stands in one line. -/
def InOneLine : Wrapping → Prop
  | link url => '\n' ∉ url
  | _ => True

end Wrapping

def Segment.written (s : Segment) : List Char := s.wrapping.written s.text

/-- The concatenation of the wrapped segments, and of the bare ones. -/
def written (segments : List Segment) : List Char := segments.flatMap Segment.written

def bare (segments : List Segment) : List Char := segments.flatMap Segment.text

/-- What is left of the segments without the wrapped ones. -/
def plainText (segments : List Segment) : List Char :=
  segments.flatMap fun s => if s.wrapping.isPlain then s.text else []

def KeepsWords (segments : List Segment) : Prop := clean (written segments) = clean (bare segments)

def InOneLine (segments : List Segment) : Prop := ∀ s ∈ segments, s.wrapping.InOneLine

/-- The characters of the segments apart from emoji, those of plain segments marked to be kept. -/
def marked (segments : List Segment) : List (Char × Bool) :=
  segments.flatMap fun s => (s.text.filter (!isEmoji ·)).map fun c => (c, s.wrapping.isPlain)

/-! ### The markup of a segment -/

theorem Segment.not_start (s : Segment) : ∀ c ∈ s.text, c ∉ markupStarts := by
  have hstarts : ∀ c ∈ markupStarts, c ∈ formatChars := by decide
  exact fun c hc hstart => s.text_plain c hc (hstarts c hstart)

theorem Segment.not_mem (s : Segment) {c : Char} (h : c ∈ formatChars) : c ∉ s.text :=
  fun hc => s.text_plain c hc h

theorem head_run_char (c : Char) (before : Option Char) (rest : List Char) :
    ((char c).run before (c :: rest)).head? = some ⟨[c], rest, []⟩ := by
  simp [char, Re.run]

theorem run_char_eq_nil {c d : Char} (h : d ≠ c) {before : Option Char} {rest : List Char} :
    (char c).run before (d :: rest) = [] :=
  Re.run_cls_eq_nil (beq_false_of_ne h)

/-- The forms of `markupRegex`. -/
def doubled (c : Char) : Re := Re.seqs [char c, char c, anyLazy, char c, char c]

def quoted (c : Char) : Re := Re.seqs [char c, anyLazy, char c]

def linked : Re := Re.seqs [char '[', anyLazy, char ']', char '(', anyLazy, char ')']

theorem markupRegex_eq : markupRegex =
    Re.alts [doubled '*', doubled '_', quoted (Char.ofNat 96), linked] := rfl

theorem run_doubled_eq_nil {c d : Char} (h : d ≠ c) {before : Option Char} {rest : List Char} :
    (doubled c).run before (d :: rest) = [] :=
  Re.run_seq_eq_nil (run_char_eq_nil h)

theorem run_quoted_eq_nil {c d : Char} (h : d ≠ c) {before : Option Char} {rest : List Char} :
    (quoted c).run before (d :: rest) = [] :=
  Re.run_seq_eq_nil (run_char_eq_nil h)

theorem head_run_anyLazy {c : Char} {r : Re} {before : Option Char} {text rest : List Char} {h : Hit}
    (hstart : ∀ before d rest, d ≠ c → r.run before (d :: rest) = []) (hclose : c ∉ text)
    (hline : '\n' ∉ text) (hrun : (r.run (Re.lastOr before text) rest).head? = some h) :
    ((Re.seq anyLazy r).run before (text ++ rest)).head? =
      some ⟨text ++ h.taken, h.rest, h.groups⟩ := by
  apply Re.head_run_lazy _ _ hrun
  · intro d hd
    exact bne_iff_ne.mpr (ne_of_mem_of_not_mem hd hline)
  · intro a b hsplit hb
    obtain ⟨d, more, rfl⟩ := List.exists_cons_of_ne_nil hb
    have hd : d ∈ text := hsplit ▸ List.mem_append_right a List.mem_cons_self
    exact hstart _ d _ (ne_of_mem_of_not_mem hd hclose)

theorem head_run_doubled {c : Char} {text : List Char} (hclose : c ∉ text) (hline : '\n' ∉ text)
    (before : Option Char) (rest : List Char) :
    ((doubled c).run before
      (c :: c :: (text ++ c :: c :: rest))).head? = some ⟨c :: c :: (text ++ [c, c]), rest, []⟩ := by
  have hend : ∀ before, ((Re.seqs [char c, char c]).run before (c :: c :: rest)).head? =
      some ⟨[c, c], rest, []⟩ :=
    fun before => Re.head_run_seq (head_run_char c before _) (head_run_char c _ _)
  have htext := fun before => head_run_anyLazy (r := Re.seqs [char c, char c])
    (fun _ _ _ hd => Re.run_seq_eq_nil (run_char_eq_nil hd)) hclose hline (hend (Re.lastOr before text))
  exact Re.head_run_seq (head_run_char c before _)
    (Re.head_run_seq (head_run_char c _ _) (htext _))

private theorem head_run_quoted {c : Char} {text : List Char} (hclose : c ∉ text) (hline : '\n' ∉ text)
    (before : Option Char) (rest : List Char) :
    ((quoted c).run before (c :: (text ++ c :: rest))).head? =
      some ⟨c :: (text ++ [c]), rest, []⟩ := by
  have htext := fun before => head_run_anyLazy (r := char c)
    (fun _ _ _ hd => run_char_eq_nil hd) hclose hline (head_run_char c (Re.lastOr before text) rest)
  exact Re.head_run_seq (head_run_char c before _) (htext _)

private theorem head_run_linked {text url : List Char} (hclose : ']' ∉ text) (hline : '\n' ∉ text)
    (hurl : ')' ∉ url) (hurlLine : '\n' ∉ url) (before : Option Char) (rest : List Char) :
    (linked.run before
      ('[' :: (text ++ ']' :: '(' :: (url ++ ')' :: rest)))).head? =
        some ⟨'[' :: (text ++ ']' :: '(' :: (url ++ [')'])), rest, []⟩ := by
  have haddress := fun before => head_run_anyLazy (r := char ')')
    (fun _ _ _ hd => run_char_eq_nil hd) hurl hurlLine (head_run_char ')' (Re.lastOr before url) rest)
  have hend : ∀ before, ((Re.seqs [char ']', char '(', anyLazy, char ')']).run before
      (']' :: '(' :: (url ++ ')' :: rest))).head? = some ⟨']' :: '(' :: (url ++ [')']), rest, []⟩ :=
    fun before => Re.head_run_seq (head_run_char ']' before _)
      (Re.head_run_seq (head_run_char '(' _ _) (haddress _))
  have htext := fun before => head_run_anyLazy
    (r := Re.seqs [char ']', char '(', anyLazy, char ')'])
    (fun _ _ _ hd => Re.run_seq_eq_nil (run_char_eq_nil hd)) hclose hline (hend (Re.lastOr before text))
  exact Re.head_run_seq (head_run_char '[' before _) (htext _)

/-- A wrapped segment is one stretch of markup. -/
theorem Segment.head_run_markup (s : Segment) (hwrapped : s.wrapping.isPlain = false)
    (hinline : s.wrapping.InOneLine) (before : Option Char) (rest : List Char) :
    (markupRegex.run before (s.written ++ rest)).head? = some ⟨s.written, rest, []⟩ := by
  obtain ⟨text, wrapping, htext, hurl⟩ := s
  have hnot : ∀ {c}, c ∈ formatChars → c ∉ text := fun hc hmem => htext _ hmem hc
  have hline : '\n' ∉ text := hnot (by decide)
  rw [markupRegex_eq]
  cases wrapping with
  | plain => cases hwrapped
  | bold =>
      have hform := head_run_doubled (hnot (by decide : '*' ∈ formatChars)) hline before rest
      have hrun := @Re.head_run_alts _ [doubled '_', quoted (Char.ofNat 96), linked] _ _ _ hform
      simpa [Segment.written, Wrapping.written] using hrun
  | italic =>
      have hform := head_run_doubled (hnot (by decide : '_' ∈ formatChars)) hline before rest
      have hrun := @Re.head_run_alts_append [doubled '*'] _ [quoted (Char.ofNat 96), linked]
        before _ _ (List.forall_mem_singleton.mpr (run_doubled_eq_nil (by decide))) hform
      simpa [Segment.written, Wrapping.written] using hrun
  | code =>
      have hform := head_run_quoted (hnot (by decide : Char.ofNat 96 ∈ formatChars)) hline before rest
      have hfront : ∀ r ∈ [doubled '*', doubled '_'],
          r.run before (Char.ofNat 96 :: (text ++ Char.ofNat 96 :: rest)) = [] := by
        simp only [List.forall_mem_cons, List.not_mem_nil, false_imp_iff, implies_true, and_true]
        exact ⟨run_doubled_eq_nil (by decide), run_doubled_eq_nil (by decide)⟩
      have hrun := @Re.head_run_alts_append _ _ [linked] before _ _ hfront hform
      simpa [Segment.written, Wrapping.written] using hrun
  | link url =>
      have hform := head_run_linked (hnot (by decide)) hline (hurl url rfl).2 hinline before rest
      have hfront : ∀ r ∈ [doubled '*', doubled '_', quoted (Char.ofNat 96)],
          r.run before ('[' :: (text ++ ']' :: '(' :: (url ++ ')' :: rest))) = [] := by
        simp only [List.forall_mem_cons, List.not_mem_nil, false_imp_iff, implies_true, and_true]
        exact ⟨run_doubled_eq_nil (by decide), run_doubled_eq_nil (by decide),
          run_quoted_eq_nil (by decide)⟩
      have hrun := @Re.head_run_alts_append _ _ [] before _ _ hfront hform
      simpa [Segment.written, Wrapping.written] using hrun

theorem Segment.written_ne_nil {s : Segment} (hwrapped : s.wrapping.isPlain = false) :
    s.written ≠ [] := by
  obtain ⟨text, wrapping, htext, hurl⟩ := s
  cases wrapping with
  | plain => cases hwrapped
  | bold => exact List.cons_ne_nil _ _
  | italic => exact List.cons_ne_nil _ _
  | code => exact List.cons_ne_nil _ _
  | link url => exact List.cons_ne_nil _ _

theorem Segment.written_of_plain {s : Segment} (hplain : s.wrapping.isPlain = true) :
    s.written = s.text := by
  obtain ⟨text, wrapping, htext, hurl⟩ := s
  cases wrapping with
  | plain => rfl
  | bold => cases hplain
  | italic => cases hplain
  | code => cases hplain
  | link url => cases hplain

/-- The wrapped segments go, whatever becomes of the text after them. -/
theorem replaces_written {segments : List Segment} (hinline : InOneLine segments)
    {tail : List Char} {P : List Char → Prop} (htail : ∀ before gap, (∀ c ∈ gap, c ∉ markupStarts) →
      ∃ out, markupRegex.Replaces [] before (gap ++ tail) (gap ++ out) ∧ P out)
    (before : Option Char) (gap : List Char) (hgap : ∀ c ∈ gap, c ∉ markupStarts) :
    ∃ out, markupRegex.Replaces [] before (gap ++ (written segments ++ tail))
      (gap ++ (plainText segments ++ out)) ∧ P out := by
  induction segments generalizing before gap with
  | nil => exact htail before gap hgap
  | cons s rest ih =>
      obtain ⟨hline, hrest⟩ := List.forall_mem_cons.mp hinline
      rw [written, plainText, List.flatMap_cons, List.flatMap_cons, ← written, ← plainText]
      cases hplain : s.wrapping.isPlain with
      | true =>
          have hnext := ih hrest before (gap ++ s.text) fun c hc =>
            (List.mem_append.mp hc).elim (hgap c) (s.not_start c)
          simpa [Segment.written_of_plain hplain] using hnext
      | false =>
          obtain ⟨out, hreplaces, hout⟩ := ih hrest s.written.getLast? [] (List.forall_mem_nil _)
          have hsearch := Re.search_skip (skips_markup hgap before _)
            (s.head_run_markup hplain hline (Re.lastOr before gap) (written rest ++ tail))
          have hnext := Re.Replaces.next hsearch (Segment.written_ne_nil hplain) hreplaces
          exact ⟨out, by simpa using hnext, hout⟩

/-! ### Emoji -/

private theorem format_not_emoji : ∀ c ∈ formatChars, isEmoji c = false := by
  decide

/-- A segment without its emoji. -/
def Segment.withoutEmoji (s : Segment) : Segment where
  text := s.text.filter (!isEmoji ·)
  wrapping := match s.wrapping with
    | .link url => .link (url.filter (!isEmoji ·))
    | wrapping => wrapping
  text_plain c hc := s.text_plain c (List.mem_filter.mp hc).1
  url_plain url hurl := by
    cases hwrapping : s.wrapping with
    | link url' =>
        rw [hwrapping] at hurl
        obtain ⟨hleft, hright⟩ := s.url_plain url' hwrapping
        cases hurl
        exact ⟨fun h => hleft (List.mem_filter.mp h).1, fun h => hright (List.mem_filter.mp h).1⟩
    | _ =>
        rw [hwrapping] at hurl
        cases hurl

theorem Segment.isPlain_withoutEmoji (s : Segment) :
    s.withoutEmoji.wrapping.isPlain = s.wrapping.isPlain := by
  obtain ⟨text, wrapping, htext, hurl⟩ := s
  cases wrapping <;> rfl

theorem Segment.written_withoutEmoji (s : Segment) :
    s.withoutEmoji.written = s.written.filter (!isEmoji ·) := by
  obtain ⟨text, wrapping, htext, hurl⟩ := s
  have hformat : ∀ {c}, c ∈ formatChars → isEmoji c = false := fun hc => format_not_emoji _ hc
  cases wrapping with
  | plain => rfl
  | bold => simp [written, withoutEmoji, Wrapping.written, hformat (show '*' ∈ formatChars by decide)]
  | italic => simp [written, withoutEmoji, Wrapping.written, hformat (show '_' ∈ formatChars by decide)]
  | code =>
      simp [written, withoutEmoji, Wrapping.written,
        hformat (show Char.ofNat 96 ∈ formatChars by decide)]
  | link url =>
      simp [written, withoutEmoji, Wrapping.written, hformat (show '[' ∈ formatChars by decide),
        hformat (show ']' ∈ formatChars by decide), hformat (show '(' ∈ formatChars by decide),
        hformat (show ')' ∈ formatChars by decide)]

theorem Segment.inOneLine_withoutEmoji (s : Segment) :
    s.withoutEmoji.wrapping.InOneLine ↔ s.wrapping.InOneLine := by
  have hline : isEmoji '\n' = false := by decide
  obtain ⟨text, wrapping, htext, hurl⟩ := s
  cases wrapping with
  | link url => simp [withoutEmoji, Wrapping.InOneLine, hline]
  | _ => exact Iff.rfl

theorem written_withoutEmoji (segments : List Segment) :
    written (segments.map Segment.withoutEmoji) = (written segments).filter (!isEmoji ·) := by
  simp only [written, List.flatMap_map, List.filter_flatMap, Segment.written_withoutEmoji]

theorem everything_marked (segments : List Segment) :
    everything (marked segments) = (bare segments).filter (!isEmoji ·) := by
  simp only [everything, marked, bare, List.map_flatMap, List.filter_flatMap, List.map_map]
  apply List.flatMap_congr
  intro s _
  exact List.map_id _

theorem kept_marked (segments : List Segment) :
    kept (marked segments) = plainText (segments.map Segment.withoutEmoji) := by
  simp only [kept, marked, plainText, List.filter_flatMap, List.map_flatMap, List.flatMap_map,
    Segment.isPlain_withoutEmoji]
  apply List.flatMap_congr
  intro s _
  cases hplain : s.wrapping.isPlain with
  | true => simp [List.filter_map, Function.comp_def, Segment.withoutEmoji]
  | false => simp [List.filter_map, Function.comp_def]

/-! ### Segments whose links stand in one line -/

private theorem fancy_images : ∀ run ∈ fancyRuns, ∀ k ∈ List.range run.2.1,
    isWhite (Char.ofNat (run.1 + k)) = false ∧ isWhite (Char.ofNat (run.2.2.toNat + k)) = false ∧
      (Char.ofNat (run.2.2.toNat + k) = '[' → run.1 + k = 0xFF3B) := by
  decide +kernel

theorem fancy?_eq_some {c d : Char} (h : fancy? c = some d) :
    isWhite c = false ∧ isWhite d = false ∧ (d = '[' → c = Char.ofNat 0xFF3B) := by
  obtain ⟨run, hrun, himage⟩ := List.exists_of_findSome?_eq_some h
  obtain ⟨first, length, image⟩ := run
  simp only [Option.ite_none_right_eq_some, Option.some.injEq] at himage
  obtain ⟨⟨hfirst, hlast⟩, rfl⟩ := himage
  have hsum : first + (c.toNat - first) = c.toNat := by omega
  obtain ⟨hwhite, himage, hbracket⟩ := fancy_images _ hrun (c.toNat - first)
    (List.mem_range.mpr (by simp only; omega))
  simp only [hsum, Char.ofNat_toNat] at hwhite himage hbracket
  refine ⟨hwhite, himage, fun hd => ?_⟩
  rw [← hbracket hd, Char.ofNat_toNat]

/-- `normalizeFancy` on one character. -/
def normalized (c : Char) : Char := (fancy? c).getD c

private theorem isWhite_normalized (c : Char) : isWhite (normalized c) = isWhite c := by
  rw [normalized]
  cases hfancy : fancy? c with
  | none => rfl
  | some d =>
      obtain ⟨hc, hd, -⟩ := fancy?_eq_some hfancy
      rw [Option.getD_some, hc, hd]

private theorem isSpace_normalized (c : Char) : Re.isSpace (normalized c) = Re.isSpace c := by
  have hplain : ∀ {e}, isWhite e = false → Re.isSpace e = false := by
    intro e he
    by_contra hspace
    rw [isWhite_of_isSpace (by simpa using hspace)] at he
    cases he
  rw [normalized]
  cases hfancy : fancy? c with
  | none => rfl
  | some d =>
      obtain ⟨hc, hd, -⟩ := fancy?_eq_some hfancy
      rw [Option.getD_some, hplain hc, hplain hd]

theorem clean_of_markup {raw out : List Char}
    (h : markupRegex.Replaces [] none (raw.filter (!isEmoji ·)) out) (htag : '<' ∉ out)
    (hentity : '&' ∉ out) : clean raw = tidy isWhite Re.isSpace ' ' (out.map normalized) := by
  rw [clean_eq, h.replaceAll_eq, htmlTag_eq_self htag, entities_eq_self hentity]
  rfl

private theorem not_mem_bare {segments : List Segment} {c : Char} (h : c ∈ formatChars) :
    c ∉ bare segments := by
  intro hc
  obtain ⟨s, -, hmem⟩ := List.mem_flatMap.mp hc
  exact s.not_mem h hmem

theorem not_mem_plainText {segments : List Segment} {c : Char} (h : c ∈ formatChars) :
    c ∉ plainText segments := by
  intro hc
  obtain ⟨s, -, hmem⟩ := List.mem_flatMap.mp hc
  split at hmem
  · exact s.not_mem h hmem
  · cases hmem

theorem clean_bare (segments : List Segment) : clean (bare segments) =
    tidy isWhite Re.isSpace ' ' ((everything (marked segments)).map normalized) := by
  rw [everything_marked]
  have hnot : ∀ {c}, c ∈ formatChars → c ∉ (bare segments).filter (!isEmoji ·) :=
    fun hc hmem => not_mem_bare hc (List.mem_filter.mp hmem).1
  have hstarts : ∀ c ∈ markupStarts, c ∈ formatChars := by decide
  apply clean_of_markup
  · apply Re.Replaces.done
    apply search_markup_eq_none
    exact fun c hc hstart => hnot (hstarts c hstart) hc
  · exact hnot (by decide)
  · exact hnot (by decide)

private theorem clean_written {segments : List Segment} (hinline : InOneLine segments) :
    clean (written segments) =
      tidy isWhite Re.isSpace ' ' ((kept (marked segments)).map normalized) := by
  have hinline' : InOneLine (segments.map Segment.withoutEmoji) := by
    intro s hs
    obtain ⟨s', hs', rfl⟩ := List.mem_map.mp hs
    exact s'.inOneLine_withoutEmoji.mpr (hinline s' hs')
  have hempty : ∀ before gap, (∀ c ∈ gap, c ∉ markupStarts) →
      ∃ out, markupRegex.Replaces [] before (gap ++ []) (gap ++ out) ∧ out = [] := by
    intro before gap hgap
    rw [List.append_nil]
    exact ⟨[], by rw [List.append_nil]; exact .done (search_markup_eq_none hgap), rfl⟩
  obtain ⟨out, hreplaces, rfl⟩ := replaces_written hinline' hempty none [] (List.forall_mem_nil _)
  simp only [List.nil_append, List.append_nil, written_withoutEmoji, ← kept_marked] at hreplaces
  rw [kept_marked] at hreplaces ⊢
  exact clean_of_markup hreplaces (not_mem_plainText (by decide)) (not_mem_plainText (by decide))

/-- With every link in one line the words are kept exactly when what is taken out does not matter. -/
theorem keepsWords_inline {segments : List Segment} (hinline : InOneLine segments) :
    KeepsWords segments ↔ Harmless isWhite Re.isSpace (marked segments) := by
  have hrename := @harmless_map Char Char isWhite Re.isSpace normalized (marked segments)
  simp only [isWhite_normalized, isSpace_normalized] at hrename
  have heverything : (everything (marked segments)).map normalized =
      everything ((marked segments).map fun x => (normalized x.1, x.2)) := by
    simp only [everything, List.map_map]
    rfl
  have hkept : (kept (marked segments)).map normalized =
      kept ((marked segments).map fun x => (normalized x.1, x.2)) := by
    simp only [kept, List.map_map, List.filter_map]
    rfl
  rw [KeepsWords, clean_written hinline, clean_bare, heverything, hkept, ← hrename, eq_comm]
  exact tidy_kept_iff (fun _ => isWhite_of_isSpace) (by decide) _

/-! ### A link over several lines -/

private theorem mem_linked {before : Option Char} {place : List Char} {h : Hit}
    (hmem : h ∈ linked.run before place) : ')' ∈ h.taken ∧ '\n' ∉ h.taken := by
  have hchar : ∀ {c : Char} {before place} {k : Hit}, k ∈ (char c).run before place →
      k.taken = [c] := by
    intro c before place k hk
    obtain ⟨d, htaken, hd⟩ := Re.mem_run_cls hk
    rw [htaken, beq_iff_eq.mp hd]
  have hlazy : ∀ {before place} {k : Hit}, k ∈ anyLazy.run before place → '\n' ∉ k.taken := by
    intro before place k hk hline
    have hall := (Re.mem_runMany hk).2.1 _ hline
    simp at hall
  obtain ⟨k₁, h₁, l₁, hl₁, e₁⟩ := Re.mem_run_seq hmem
  obtain ⟨k₂, h₂, l₂, hl₂, e₂⟩ := Re.mem_run_seq hl₁
  obtain ⟨k₃, h₃, l₃, hl₃, e₃⟩ := Re.mem_run_seq hl₂
  obtain ⟨k₄, h₄, l₄, hl₄, e₄⟩ := Re.mem_run_seq hl₃
  obtain ⟨k₅, h₅, k₆, h₆, e₅⟩ := Re.mem_run_seq hl₄
  rw [e₁, e₂, e₃, e₄, e₅, hchar h₁, hchar h₃, hchar h₄, hchar h₆]
  simpa using ⟨hlazy h₂, hlazy h₅⟩

/-- The markup does not match a link with a line break in its address. -/
private theorem run_markup_broken {text url : List Char} (htext : ∀ c ∈ text, c ∉ formatChars)
    (hurl : ')' ∉ url) (hline : '\n' ∈ url) (before : Option Char) (rest : List Char) :
    markupRegex.run before ('[' :: (text ++ ']' :: '(' :: (url ++ rest))) = [] := by
  obtain ⟨front, back, rfl⟩ := List.append_of_mem hline
  have hpast : ')' ∉ '[' :: (text ++ ']' :: '(' :: front) := by
    have hnot : ')' ∉ text := fun hc => htext _ hc (by decide)
    simp only [List.mem_append, not_or] at hurl
    simp [hnot, hurl.1]
  have hlinked : linked.run before ('[' :: (text ++ ']' :: '(' :: (front ++ '\n' :: back ++ rest))) =
      [] := by
    apply List.eq_nil_iff_forall_not_mem.mpr
    intro h hmem
    obtain ⟨hclose, hinline⟩ := mem_linked hmem
    have hsplit := Re.eq_append_of_mem_run hmem
    have hsplit : '[' :: (text ++ ']' :: '(' :: front) ++ '\n' :: (back ++ rest) =
        h.taken ++ h.rest := by
      rw [← hsplit]
      simp
    rcases List.append_eq_append_iff.mp hsplit with ⟨more, htaken, hmore⟩ | ⟨more, hfront, -⟩
    · cases more with
      | nil =>
          rw [List.append_nil] at htaken
          exact hpast (htaken ▸ hclose)
      | cons c others =>
          rw [htaken, ← (List.cons.inj hmore).1] at hinline
          exact hinline (List.mem_append_right _ List.mem_cons_self)
    · exact hpast (hfront ▸ List.mem_append_left more hclose)
  rw [markupRegex_eq]
  apply Re.run_alts_eq_nil (List.cons_ne_nil _ _)
  simp only [List.forall_mem_cons, List.not_mem_nil, false_imp_iff, implies_true, and_true]
  exact ⟨run_doubled_eq_nil (by decide), run_doubled_eq_nil (by decide),
    run_quoted_eq_nil (by decide), hlinked⟩

private theorem taken_ne_nil_of_markup : ∀ before text, ∀ h ∈ markupRegex.run before text, h.taken ≠ [] := by
  intro before text h hmem
  obtain ⟨r, hr, hmem⟩ := (Re.mem_run_alts (List.cons_ne_nil _ _)).mp hmem
  simp only [List.mem_cons, List.not_mem_nil, or_false] at hr
  rcases hr with rfl | rfl | rfl | rfl <;> exact Re.taken_ne_nil_of_cls_seq hmem

private theorem exists_replaces_broken {text url rest : List Char} (htext : ∀ c ∈ text, c ∉ formatChars)
    (hurl : ')' ∉ url) (hline : '\n' ∈ url) (before : Option Char) (gap : List Char)
    (hgap : ∀ c ∈ gap, c ∉ markupStarts) :
    ∃ out, markupRegex.Replaces [] before (gap ++ '[' :: (text ++ ']' :: '(' :: (url ++ rest)))
      (gap ++ out) ∧ ∃ more, out = '[' :: more := by
  have hskip : ∀ a b, gap ++ ['['] = a ++ b → b ≠ [] →
      markupRegex.run (Re.lastOr before a) (b ++ (text ++ ']' :: '(' :: (url ++ rest))) = [] := by
    intro a b hsplit hb
    obtain ⟨b, c, rfl⟩ := (List.eq_nil_or_concat b).resolve_left hb
    rw [List.concat_eq_append, ← List.append_assoc] at hsplit
    obtain ⟨hgapsplit, hc⟩ := List.append_inj' hsplit rfl
    obtain rfl := (List.cons.inj hc).1
    rw [List.concat_eq_append, List.append_assoc]
    cases b with
    | nil => exact run_markup_broken htext hurl hline _ _
    | cons d more =>
        exact run_markup_eq_nil (hgap d (hgapsplit ▸ List.mem_append_right a List.mem_cons_self))
  obtain ⟨more, hmore⟩ := @Re.exists_replaces_append _ [] before _ _ taken_ne_nil_of_markup hskip
  refine ⟨'[' :: more, ?_, more, rfl⟩
  simpa using hmore

private theorem exists_htmlTag_append {front : List Char} (h : '<' ∉ front) (text : List Char) :
    ∃ more, htmlTagRegex.replaceAll [] (front ++ text) = front ++ more := by
  have hskip : ∀ a b, front = a ++ b → b ≠ [] →
      htmlTagRegex.run (Re.lastOr none a) (b ++ text) = [] := by
    intro a b hsplit hb
    obtain ⟨c, more, rfl⟩ := List.exists_cons_of_ne_nil hb
    apply run_htmlTag_eq_nil
    rintro rfl
    exact h (hsplit ▸ List.mem_append_right a List.mem_cons_self)
  obtain ⟨more, hmore⟩ := @Re.exists_replaces_append _ [] none _ _
    (fun _ _ _ hmem => Re.taken_ne_nil_of_cls_seq hmem) hskip
  exact ⟨more, hmore.replaceAll_eq⟩

private theorem exists_entities_append {front : List Char} (h : '&' ∉ front) (fuel : Nat)
    (text : List Char) : ∃ more, replacePairs htmlEntities fuel (front ++ text) = front ++ more := by
  induction front generalizing fuel with
  | nil => exact ⟨_, rfl⟩
  | cons c rest ih =>
      rw [List.mem_cons, not_or] at h
      cases fuel with
      | zero => exact ⟨text, rfl⟩
      | succ fuel =>
          obtain ⟨more, hmore⟩ := ih h.2 fuel
          rw [List.cons_append, replacePairs, firstReplacement_eq_none (Ne.symm h.1)]
          exact ⟨more, congrArg (c :: ·) hmore⟩

private theorem exists_broken {segments : List Segment} (h : ¬ InOneLine segments) :
    ∃ front s back, segments = front ++ s :: back ∧ InOneLine front ∧ ¬ s.wrapping.InOneLine := by
  induction segments with
  | nil => exact absurd (List.forall_mem_nil _) h
  | cons s rest ih =>
      by_cases hs : s.wrapping.InOneLine
      · have hrest : ¬ InOneLine rest := fun hrest => h (List.forall_mem_cons.mpr ⟨hs, hrest⟩)
        obtain ⟨front, s', back, rfl, hfront, hs'⟩ := ih hrest
        exact ⟨s :: front, s', back, rfl, List.forall_mem_cons.mpr ⟨hs, hfront⟩, hs'⟩
      · exact ⟨[], s, rest, rfl, List.forall_mem_nil _, hs⟩

theorem mem_tidy {c : Char} (hc : isWhite c = false) {text : List Char} :
    c ∈ tidy isWhite Re.isSpace ' ' text ↔ c ∈ text := by
  have hfilter := @filter_tidy Char isWhite Re.isSpace ' ' (fun _ => isWhite_of_isSpace) rfl text
  have hmem : ∀ l : List Char, c ∈ l.filter (!isWhite ·) ↔ c ∈ l := by
    intro l
    simp [hc]
  rw [← hmem, hfilter, hmem]

/-- A link over several lines leaves its bracket in the cleaned text. -/
private theorem bracket_of_broken {segments : List Segment} (h : ¬ InOneLine segments) :
    '[' ∈ clean (written segments) := by
  have h' : ¬ InOneLine (segments.map Segment.withoutEmoji) := by
    intro hinline
    apply h
    intro s hs
    exact s.inOneLine_withoutEmoji.mp (hinline _ (List.mem_map_of_mem hs))
  obtain ⟨front, s, back, hsplit, hfront, hs⟩ := exists_broken h'
  obtain ⟨text, wrapping, htext, hurl⟩ := s
  cases wrapping with
  | link url =>
      have hline : '\n' ∈ url := not_not.mp hs
      have htail := @exists_replaces_broken text url (')' :: written back) htext (hurl url rfl).2 hline
      obtain ⟨out, hreplaces, more, rfl⟩ :=
        replaces_written hfront htail none [] (List.forall_mem_nil _)
      have hraw : written front ++ '[' :: (text ++ ']' :: '(' :: (url ++ ')' :: written back)) =
          (written segments).filter (!isEmoji ·) := by
        rw [← written_withoutEmoji, hsplit]
        simp [written, Segment.written, Wrapping.written]
      simp only [List.nil_append, hraw] at hreplaces
      have hout : plainText front ++ '[' :: more = (plainText front ++ ['[']) ++ more := by
        simp
      have hnot : ∀ {c}, c ∈ formatChars → c ≠ '[' → c ∉ plainText front ++ ['['] := by
        intro c hc hne hmem
        rcases List.mem_append.mp hmem with hmem | hmem
        · exact not_mem_plainText hc hmem
        · exact hne (List.mem_singleton.mp hmem)
      obtain ⟨more', htags⟩ := exists_htmlTag_append (hnot (by decide) (by decide : '<' ≠ '[')) more
      obtain ⟨more'', hentities⟩ := exists_entities_append
        (hnot (by decide) (by decide : '&' ≠ '[')) (plainText front ++ ['['] ++ more').length more'
      rw [clean_eq, hreplaces.replaceAll_eq, hout, htags, replaceHTMLEntities, hentities,
        mem_tidy (by decide)]
      have hbracket : (fancy? '[').getD '[' = '[' := by decide
      exact List.mem_map.mpr ⟨'[', by simp, hbracket⟩
  | _ => exact absurd trivial hs

private theorem fancy_bracket {segments : List Segment} (h : '[' ∈ clean (bare segments)) :
    ∃ s ∈ segments, Char.ofNat 0xFF3B ∈ s.text := by
  rw [clean_bare, mem_tidy (by decide), everything_marked] at h
  obtain ⟨c, hc, himage⟩ := List.mem_map.mp h
  obtain ⟨s, hs, hmem⟩ := List.mem_flatMap.mp (List.mem_filter.mp hc).1
  refine ⟨s, hs, ?_⟩
  rw [normalized] at himage
  cases hfancy : fancy? c with
  | none =>
      rw [hfancy, Option.getD_none] at himage
      exact absurd (himage ▸ hmem) (s.not_mem (by decide))
  | some d =>
      rw [hfancy, Option.getD_some] at himage
      exact (fancy?_eq_some hfancy).2.2 himage ▸ hmem

/-- The words are kept if every link stands in one line and what is taken out with the wrapped segments
does not matter, and only then, unless a bracket of a link over several lines is mistaken for a fancy
bracket of the text. -/
theorem keeps_words_iff (segments : List Segment) :
    (InOneLine segments ∧ Harmless isWhite Re.isSpace (marked segments) → KeepsWords segments) ∧
    (KeepsWords segments → InOneLine segments ∧ Harmless isWhite Re.isSpace (marked segments) ∨
      ¬ InOneLine segments ∧ ∃ s ∈ segments, Char.ofNat 0xFF3B ∈ s.text) := by
  constructor
  · exact fun h => (keepsWords_inline h.1).mpr h.2
  · intro hkeeps
    by_cases hinline : InOneLine segments
    · exact Or.inl ⟨hinline, (keepsWords_inline hinline).mp hkeeps⟩
    · refine Or.inr ⟨hinline, fancy_bracket ?_⟩
      rw [← hkeeps]
      exact bracket_of_broken hinline

/-- Such a mistake, in which the link as it stands is what the bold text becomes. -/
example : KeepsWords [⟨[], .link ['\n'], by decide, fun _ h => by cases h; decide⟩,
    ⟨"［］（ ）".toList, .bold, by decide, fun _ h => by cases h⟩] := by
  rw [KeepsWords]
  decide

/-- A bold word and a plain one. -/
def boldAction : List Segment :=
  [⟨"BUY".toList, .bold, by decide, fun _ h => by cases h⟩,
    ⟨" EURUSD".toList, .plain, by decide, fun _ h => by cases h⟩]

theorem bold_action_lost : written boldAction = "**BUY** EURUSD".toList ∧
    clean (written boldAction) = "EURUSD".toList ∧ clean (bare boldAction) = "BUY EURUSD".toList ∧
    ¬ KeepsWords boldAction := by
  have hwritten : clean (written boldAction) = "EURUSD".toList := by decide
  have hbare : clean (bare boldAction) = "BUY EURUSD".toList := by decide
  refine ⟨by decide, hwritten, hbare, fun h => ?_⟩
  rw [KeepsWords, hwritten, hbare] at h
  exact absurd h (by decide)

end SphereFx.Extractor
