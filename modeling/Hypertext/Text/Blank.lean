/-!
# Blank characters

`isBlank` is the property `White_Space` of Unicode, and `tokens` cuts a text at its blank
characters into the words between them.  `tokens_append_blank` says that a blank character
separates: the tokens on its two sides do not see each other.  So cutting undoes joining with
spaces, for every list of words, as `tokens_intercalate` says.
-/

namespace Hypertext.Text

/-- The ranges of the code points with the property `White_Space`, in increasing order. -/
def blankRanges : List (Nat × Nat) :=
  [(0x9, 0xd), (0x20, 0x20), (0x85, 0x85), (0xa0, 0xa0), (0x1680, 0x1680), (0x2000, 0x200a),
    (0x2028, 0x2029), (0x202f, 0x202f), (0x205f, 0x205f), (0x3000, 0x3000)]

/-- Whether a character is white space. -/
def isBlank (c : Char) : Bool :=
  blankRanges.any fun r => r.1 ≤ c.toNat && c.toNat ≤ r.2

/-- The maximal runs of characters that are not blank. -/
def words (cs : List Char) : List (List Char) :=
  (cs.splitOnP isBlank).filter (!·.isEmpty)

/-- The words of a text, as texts. -/
def tokens (s : String) : List String :=
  (words s.toList).map String.ofList

/-- A blank character separates the words on its two sides. -/
theorem words_append_blank (cs ds : List Char) {b : Char} (hb : isBlank b) :
  words (cs ++ b :: ds) = words cs ++ words ds
  := by
  rw [words, List.splitOnP_append_cons cs ds hb, List.filter_append]
  rfl

/-- A blank character separates the tokens on its two sides. -/
theorem tokens_append_blank (s t : String) {b : Char} (hb : isBlank b) :
  tokens (s ++ String.singleton b ++ t) = tokens s ++ tokens t
  := by
  simp [tokens, words_append_blank _ _ hb]

/-- A space separates the tokens on its two sides. -/
theorem tokens_append_space (s t : String) :
  tokens (s ++ " " ++ t) = tokens s ++ tokens t
  := by
  have hspace : isBlank ' ' := by decide
  apply tokens_append_blank s t hspace

/-! ### Words -/

/-- Whether a text is a word: it is not empty and has no blank characters. -/
structure IsWord (s : String) : Prop where
  ne_empty : s ≠ ""
  not_isBlank : ∀ c ∈ s.toList, isBlank c = false

/-- No piece that a list is cut into has a character that is cut at. -/
theorem not_isBlank_of_mem_splitOnP {cs piece : List Char} (h : piece ∈ cs.splitOnP isBlank) :
  ∀ c ∈ piece, isBlank c = false
  := by
  induction cs generalizing piece with
  | nil =>
    rw [List.splitOnP_nil, List.mem_singleton] at h
    simp [h]
  | cons d ds ih =>
    rw [List.splitOnP_cons_eq_if_modifyHead] at h
    obtain ⟨first, others, hpieces⟩ := List.exists_cons_of_ne_nil (List.splitOnP_ne_nil isBlank ds)
    rw [hpieces] at h ih
    split at h
    · rcases List.mem_cons.mp h with rfl | h
      · simp
      · apply ih h
    · next hd =>
      rcases List.mem_cons.mp h with rfl | h
      · intro c hc
        rcases List.mem_cons.mp hc with rfl | hc
        · apply Bool.eq_false_iff.mpr hd
        · apply ih (.head _) c hc
      · apply ih (.tail _ h)

/-- The tokens of a text are words. -/
theorem isWord_of_mem_tokens {s t : String} (h : t ∈ tokens s) :
  IsWord t
  := by
  obtain ⟨word, hword, rfl⟩ := List.mem_map.mp h
  obtain ⟨hpiece, hne⟩ := List.mem_filter.mp hword
  constructor
  · rw [ne_eq, ← String.toList_inj, String.toList_ofList]
    intro hnil
    simp [hnil] at hne
  · rw [String.toList_ofList]
    apply not_isBlank_of_mem_splitOnP hpiece

/-- A word is its only token. -/
theorem IsWord.tokens_eq {s : String} (h : IsWord s) :
  tokens s = [s]
  := by
  have hne : s.toList.isEmpty = false := by
    simp [h.ne_empty]
  rw [tokens, words, List.splitOnP_eq_singleton h.not_isBlank]
  simp [hne]

/-- The tokens of words with spaces between them are the words. -/
theorem tokens_intercalate {list : List String} (h : ∀ s ∈ list, IsWord s) :
  tokens (" ".intercalate list) = list
  := by
  induction list with
  | nil =>
    rw [String.intercalate_nil]
    rfl
  | cons s list ih =>
    have hs : IsWord s := h s (.head _)
    cases list with
    | nil => rw [String.intercalate_singleton, hs.tokens_eq]
    | cons t list =>
      have hlist := ih fun r hr => h r (.tail _ hr)
      rw [String.intercalate_cons_cons, tokens_append_space, hs.tokens_eq, hlist,
        List.singleton_append]

end Hypertext.Text
