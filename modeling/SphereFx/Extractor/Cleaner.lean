import Mathlib.Data.List.Chain
import SphereFx.Base.Regex
import SphereFx.Base.Text

/-!
# The cleaning of a raw text

`Cleaner.Clean`: emoji, markup and HTML tags go, entities and fancy letters become plain characters,
and white space collapses.
-/

namespace SphereFx.Extractor

open Text

attribute [local instance] decidableBAllChar

/-- The blocks of `emojiPattern`. -/
def emojiBlocks : List (Nat × Nat) := [
  (0x1F300, 0x1F5FF), (0x1F600, 0x1F64F), (0x1F680, 0x1F6FF), (0x1F700, 0x1F77F),
  (0x1F780, 0x1F7FF), (0x1F800, 0x1F8FF), (0x1F900, 0x1F9FF), (0x1FA00, 0x1FA6F),
  (0x1FA70, 0x1FAFF), (0x2600, 0x26FF), (0x2700, 0x27BF)]

def isEmoji (c : Char) : Bool := emojiBlocks.any fun block => block.1 ≤ c.toNat && c.toNat ≤ block.2

def emojiRegex : Re := .cls isEmoji

/-- A character by itself. -/
def char (c : Char) : Re := .cls (· == c)

/-- `.*?`. -/
def anyLazy : Re := .many (· != '\n') false

/-- `\*\*.*?\*\*|__.*?__|` followed by a code span in backticks and `\[.*?\]\(.*?\)`. -/
def markupRegex : Re := Re.alts [
  Re.seqs [char '*', char '*', anyLazy, char '*', char '*'],
  Re.seqs [char '_', char '_', anyLazy, char '_', char '_'],
  Re.seqs [char (Char.ofNat 96), anyLazy, char (Char.ofNat 96)],
  Re.seqs [char '[', anyLazy, char ']', char '(', anyLazy, char ')']]

/-- `<[^>]*>`. -/
def htmlTagRegex : Re := Re.seqs [char '<', .many (· != '>') true, char '>']

/-- `\s+`. -/
def whitespaceRegex : Re := Re.many1 Re.isSpace

def htmlEntities : List (List Char × List Char) :=
  [("&amp;", "&"), ("&lt;", "<"), ("&gt;", ">"), ("&quot;", "\""), ("&apos;", "'"), ("&nbsp;", " "),
    ("&mdash;", "—"), ("&ndash;", "–"), ("&bull;", "•"), ("&copy;", "©"), ("&reg;", "®"),
    ("&trade;", "™"), ("&euro;", "€"), ("&pound;", "£"), ("&yen;", "¥"), ("&cent;", "¢"),
    ("&sect;", "§"), ("&deg;", "°"), ("&plusmn;", "±"), ("&frac12;", "½"), ("&frac14;", "¼"),
    ("&frac34;", "¾")].map fun pair => (pair.1.toList, pair.2.toList)

def replaceHTMLEntities (text : List Char) : List Char := replacePairs htmlEntities text.length text

/-- The entries of `fancy_char_map.json` from one character to one, as runs of consecutive code
points: the first code point, the length and the first image. -/
def fancyRuns : List (Nat × Nat × Char) := [
  (0xB2, 2, '2'), (0xB9, 1, '1'), (0x2070, 1, '0'), (0x2074, 6, '4'), (0x2080, 10, '0'),
  (0x2102, 1, 'C'), (0x210A, 1, 'g'), (0x210B, 1, 'H'), (0x210C, 1, 'H'), (0x210D, 1, 'H'),
  (0x210E, 1, 'h'), (0x2110, 1, 'I'), (0x2111, 1, 'I'), (0x2112, 1, 'L'), (0x2115, 1, 'N'),
  (0x2119, 3, 'P'), (0x211D, 1, 'R'), (0x2124, 1, 'Z'), (0x2128, 1, 'Z'), (0x212C, 2, 'B'),
  (0x212F, 1, 'e'), (0x2130, 2, 'E'), (0x2133, 1, 'M'), (0x2134, 1, 'o'), (0x2236, 1, ':'),
  (0x2460, 9, '1'), (0x24B6, 26, 'A'), (0x24D0, 26, 'a'), (0xFF01, 15, '!'), (0xFF1A, 69, ':'),
  (0xFF5F, 2, '('), (0x1D400, 26, 'A'), (0x1D41A, 26, 'a'), (0x1D434, 26, 'A'), (0x1D44E, 7, 'a'),
  (0x1D456, 18, 'i'), (0x1D468, 26, 'A'), (0x1D482, 26, 'a'), (0x1D49C, 1, 'A'),
  (0x1D49E, 2, 'C'), (0x1D4A2, 1, 'G'), (0x1D4A5, 2, 'J'), (0x1D4A9, 4, 'N'), (0x1D4AE, 8, 'S'),
  (0x1D4B6, 4, 'a'), (0x1D4BB, 1, 'f'), (0x1D4BD, 7, 'h'), (0x1D4C5, 11, 'p'), (0x1D4D0, 26, 'A'),
  (0x1D4EA, 26, 'a'), (0x1D504, 2, 'A'), (0x1D507, 4, 'D'), (0x1D50D, 16, 'J'),
  (0x1D51E, 26, 'a'), (0x1D538, 2, 'A'), (0x1D53B, 4, 'D'), (0x1D540, 5, 'I'), (0x1D546, 1, 'O'),
  (0x1D54A, 7, 'S'), (0x1D552, 26, 'a'), (0x1D5A0, 26, 'A'), (0x1D5BA, 26, 'a'),
  (0x1D5D4, 26, 'A'), (0x1D5EE, 26, 'a'), (0x1D608, 26, 'A'), (0x1D622, 26, 'a'),
  (0x1D63C, 26, 'A'), (0x1D656, 26, 'a'), (0x1D670, 26, 'A'), (0x1D68A, 26, 'a')]

/-- `fancyMap`. -/
def fancy? (c : Char) : Option Char :=
  fancyRuns.findSome? fun (first, length, image) =>
    if first ≤ c.toNat ∧ c.toNat < first + length then
      some (Char.ofNat (image.toNat + (c.toNat - first)))
    else none

def normalizeFancy (text : List Char) : List Char := text.map fun c => (fancy? c).getD c

def clean (raw : List Char) : List Char :=
  let text := emojiRegex.replaceAll [] raw
  let text := markupRegex.replaceAll [] text
  let text := htmlTagRegex.replaceAll [] text
  let text := replaceHTMLEntities text
  let text := normalizeFancy text
  trimSpace (whitespaceRegex.replaceAll [' '] text)

example : clean "🚀 **x** &lt;BUY&gt;\n𝐍𝐎𝐖 <b>1</b> ".toList = "<BUY> NOW 1".toList := by
  decide

/-! ### Texts that cleaning leaves alone -/

theorem isWhite_of_isSpace {c : Char} (h : Re.isSpace c = true) : isWhite c = true := by
  simp only [Re.isSpace, Bool.or_eq_true, beq_iff_eq] at h
  rcases h with (((rfl | rfl) | rfl) | rfl) | rfl <;> decide

/-- An ASCII character that starts no markup, tag or entity. -/
def isOrdinary (c : Char) : Bool :=
  c.toNat < 128 && !(['*', '_', Char.ofNat 96, '[', '<', '&'].contains c)

/-- White space is single spaces. -/
structure SingleSpaced (text : List Char) : Prop where
  apart : text.IsChain fun c d => ¬ (Re.isSpace c = true ∧ Re.isSpace d = true)
  spaces : ∀ c ∈ text, Re.isSpace c = true → c = ' '

/-- Words without white space, with single spaces between them. -/
theorem singleSpaced_unwords {words : List (List Char)} (hne : ∀ w ∈ words, w ≠ [])
    (hspace : ∀ w ∈ words, ∀ c ∈ w, Re.isSpace c = false) : SingleSpaced (unwords words) := by
  constructor
  · induction words with
    | nil => exact List.IsChain.nil
    | cons w rest ih =>
        obtain ⟨hw, hrest⟩ := List.forall_mem_cons.mp hne
        obtain ⟨hwspace, hrestspace⟩ := List.forall_mem_cons.mp hspace
        have hword : w.IsChain fun c d => ¬ (Re.isSpace c = true ∧ Re.isSpace d = true) := by
          refine List.Pairwise.isChain (List.pairwise_of_forall_mem_list fun c hc d _ h => ?_)
          rw [hwspace c hc] at h
          cases h.1
        cases rest with
        | nil => exact hword
        | cons v more =>
            rw [unwords_cons (List.cons_ne_nil v more)]
            refine List.isChain_append.mpr ⟨hword, ?_, ?_⟩
            · refine List.isChain_cons.mpr ⟨fun d hd h => ?_, ih hrest hrestspace⟩
              obtain ⟨u, hu, hdu⟩ := head_unwords hrest d hd
              rw [hrestspace u hu d hdu] at h
              cases h.2
            · intro c hc d _ h
              rw [hwspace c (List.mem_of_getLast? hc)] at h
              cases h.1
  · intro c hc hcspace
    rcases mem_unwords hc with rfl | ⟨w, hw, hcw⟩
    · rfl
    · rw [hspace w hw c hcw] at hcspace
      cases hcspace

theorem isEmoji_eq_false {c : Char} (h : c.toNat < 128) : isEmoji c = false := by
  have hblocks : ∀ block ∈ emojiBlocks, 128 ≤ block.1 := by decide
  refine List.any_eq_false.mpr fun block hblock hin => ?_
  rw [Bool.and_eq_true, decide_eq_true_eq] at hin
  have := hblocks block hblock
  omega

theorem fancy?_eq_none {c : Char} (h : c.toNat < 128) : fancy? c = none := by
  have hruns : ∀ run ∈ fancyRuns, 128 ≤ run.1 := by decide
  refine List.findSome?_eq_none_iff.mpr fun run hrun => ?_
  have := hruns run hrun
  obtain ⟨first, length, image⟩ := run
  show (if first ≤ c.toNat ∧ c.toNat < first + length then _ else none) = none
  rw [if_neg (by omega)]

theorem firstReplacement_eq_none {c : Char} {rest : List Char} (h : c ≠ '&') :
    firstReplacement htmlEntities (c :: rest) = none := by
  have hfirst : ∀ pair ∈ htmlEntities, pair.1.head? = some '&' := by decide
  refine List.findSome?_eq_none_iff.mpr fun pair hpair => ?_
  have hhead := hfirst pair hpair
  obtain ⟨old, new⟩ := pair
  cases old with
  | nil => cases hhead
  | cons d more =>
      obtain rfl := Option.some.inj hhead
      rw [afterPrefix?, if_neg (Ne.symm h), Option.map_none]

/-- The characters that begin a stretch of markup. -/
def markupStarts : List Char := ['*', '_', Char.ofNat 96, '[']

theorem run_markup_eq_nil {before : Option Char} {c : Char} {rest : List Char}
    (h : c ∉ markupStarts) : markupRegex.run before (c :: rest) = [] := by
  have hchar : ∀ d ∈ markupStarts, ∀ r : Re, (Re.seq (char d) r).run before (c :: rest) = [] := by
    intro d hd r
    apply Re.run_seq_eq_nil
    apply Re.run_cls_eq_nil
    exact beq_false_of_ne (ne_of_mem_of_not_mem hd h).symm
  apply Re.run_alts_eq_nil (List.cons_ne_nil _ _)
  simp only [List.forall_mem_cons, List.not_mem_nil, false_imp_iff, implies_true, and_true]
  exact ⟨hchar '*' (by decide) _, hchar '_' (by decide) _, hchar (Char.ofNat 96) (by decide) _,
    hchar '[' (by decide) _⟩

theorem skips_markup {front : List Char} (h : ∀ c ∈ front, c ∉ markupStarts)
    (before : Option Char) (text : List Char) : ∀ a b, front = a ++ b → b ≠ [] →
      markupRegex.run (Re.lastOr before a) (b ++ text) = [] := by
  intro a b hsplit hb
  obtain ⟨c, more, rfl⟩ := List.exists_cons_of_ne_nil hb
  exact run_markup_eq_nil (h c (hsplit ▸ List.mem_append_right a List.mem_cons_self))

theorem search_markup_eq_none {before : Option Char} {text : List Char}
    (h : ∀ c ∈ text, c ∉ markupStarts) : markupRegex.search before text = none := by
  apply Re.search_eq_none
  intro a b hsplit
  cases b with
  | nil => rfl
  | cons c more =>
      exact run_markup_eq_nil (h c (hsplit ▸ List.mem_append_right a List.mem_cons_self))

theorem run_htmlTag_eq_nil {before : Option Char} {c : Char} {rest : List Char} (h : c ≠ '<') :
    htmlTagRegex.run before (c :: rest) = [] :=
  Re.run_seq_eq_nil (Re.run_cls_eq_nil (beq_false_of_ne h))

theorem htmlTag_eq_self {text : List Char} (h : '<' ∉ text) :
    htmlTagRegex.replaceAll [] text = text := by
  apply Re.Replaces.replaceAll_eq
  apply Re.Replaces.done
  apply Re.search_eq_none
  intro a b hsplit
  cases b with
  | nil => rfl
  | cons c more =>
      apply run_htmlTag_eq_nil
      rintro rfl
      exact h (hsplit ▸ List.mem_append_right a List.mem_cons_self)

theorem entities_eq_self {text : List Char} (h : '&' ∉ text) : replaceHTMLEntities text = text := by
  apply replacePairs_eq_self
  intro front place hsplit hne
  obtain ⟨c, rest, rfl⟩ := List.exists_cons_of_ne_nil hne
  apply firstReplacement_eq_none
  rintro rfl
  exact h (hsplit ▸ List.mem_append_right front List.mem_cons_self)

theorem clean_eq (raw : List Char) : clean raw = tidy isWhite Re.isSpace ' '
    (normalizeFancy (replaceHTMLEntities (htmlTagRegex.replaceAll []
      (markupRegex.replaceAll [] (raw.filter (!isEmoji ·)))))) := by
  simp only [clean, emojiRegex, Re.replaceAll_cls, whitespaceRegex, Re.replaceAll_many1]
  rfl

private theorem taken_of_whitespace {text : List Char} {h : Hit} (hspaced : SingleSpaced text)
    (hoccurs : whitespaceRegex.Occurs text h) : h.taken = [' '] := by
  obtain ⟨before, front, place, rfl, hmem⟩ := hoccurs
  obtain ⟨hne, hall⟩ := Re.mem_run_many1 hmem
  have hplace := Re.eq_append_of_mem_run hmem
  cases htaken : h.taken with
  | nil => exact absurd htaken hne
  | cons c more =>
      rw [htaken] at hall hplace
      have hc : Re.isSpace c = true := hall c List.mem_cons_self
      have hin : c ∈ front ++ place := by
        rw [hplace]
        exact List.mem_append_right front List.mem_cons_self
      rw [hspaced.spaces c hin hc]
      cases more with
      | nil => rfl
      | cons d more =>
          have hd : Re.isSpace d = true := hall d (List.mem_cons_of_mem c List.mem_cons_self)
          have happart := hspaced.apart
          rw [hplace] at happart
          have hchain := (List.isChain_append.mp happart).2.1
          exact absurd ⟨hc, hd⟩ (List.isChain_cons_cons.mp hchain).1

theorem SingleSpaced.squeeze_eq {text : List Char} (h : SingleSpaced text) :
    squeeze Re.isSpace ' ' false text = text := by
  rw [← Re.replaceAll_many1]
  exact Re.replaceAll_self fun _ hoccurs => taken_of_whitespace h hoccurs

theorem clean_eq_self {text : List Char} (hchars : ∀ c ∈ text, isOrdinary c = true)
    (hspaced : SingleSpaced text) (hfirst : ∀ c ∈ text.head?, isWhite c = false)
    (hlast : ∀ c ∈ text.getLast?, isWhite c = false) : clean text = text := by
  have hascii : ∀ c ∈ text, c.toNat < 128 := by
    intro c hc
    have hordinary := hchars c hc
    rw [isOrdinary, Bool.and_eq_true, decide_eq_true_eq] at hordinary
    exact hordinary.1
  have hspecial : ∀ {d : Char}, isOrdinary d = false → d ∉ text := by
    intro d hd hmem
    rw [hchars d hmem] at hd
    cases hd
  have hemoji : text.filter (!isEmoji ·) = text := by
    apply List.filter_eq_self.mpr
    intro c hc
    rw [isEmoji_eq_false (hascii c hc), Bool.not_false]
  have hmarkup : markupRegex.replaceAll [] text = text := by
    have hstarts : ∀ d ∈ markupStarts, isOrdinary d = false := by decide
    apply Re.Replaces.replaceAll_eq
    apply Re.Replaces.done
    apply search_markup_eq_none
    exact fun c hc hstart => hspecial (hstarts c hstart) hc
  have hfancy : normalizeFancy text = text := by
    have hmap : text.map (fun c => (fancy? c).getD c) = text.map id := by
      apply List.map_congr_left
      intro c hc
      rw [fancy?_eq_none (hascii c hc)]
      rfl
    rw [normalizeFancy, hmap, List.map_id]
  rw [clean_eq, hemoji, hmarkup, htmlTag_eq_self (hspecial (by decide)),
    entities_eq_self (hspecial (by decide)), hfancy, tidy, hspaced.squeeze_eq]
  exact trim_eq_self hfirst hlast

end SphereFx.Extractor
