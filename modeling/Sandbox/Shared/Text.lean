import Mathlib.Data.List.Basic

/-!
# Strings

The operations on strings that the services rest on: splitting and joining
at a character, and the alphabets of random tokens and tenant slugs. They
work on the characters of a string.

## Main definitions

* `split`, `join`: `text.split(c)` and `parts.join(c)`.
* `isBase64Url`, `isSlug`: Two alphabets with their lengths.

## Theorems

* `split_join`: Splitting undoes joining parts without the separator.
* `notMem_of_mem_split`, `length_split`: What the parts are like, and how many.
* `eq_of_append_cons_eq`: A text is cut at its last separator in one way.
-/

namespace Sandbox

/-- `text.split(separator)` for a separator of one character. -/
def split (separator : Char) (text : String) : List String :=
  (text.toList.splitOn separator).map String.ofList

/-- `parts.join(separator)` for a separator of one character. -/
def join (separator : Char) (parts : List String) : String :=
  String.ofList ([separator].intercalate (parts.map String.toList))

/-- Splitting undoes joining, as long as no part contains the separator. -/
theorem split_join {separator : Char} {parts : List String} (hne : parts ≠ [])
    (h : ∀ part ∈ parts, separator ∉ part.toList) :
    split separator (join separator parts) = parts := by
  have hsep : ∀ l ∈ parts.map String.toList, separator ∉ l := by
    intro l hl
    rcases List.mem_map.mp hl with ⟨part, hpart, rfl⟩
    exact h part hpart
  unfold split join
  rw [String.toList_ofList,
    List.splitOn_intercalate separator hsep (by simpa using hne), List.map_map]
  exact List.map_id'' (fun part => String.ofList_toList) parts

/-- A part has no separator. -/
theorem notMem_of_mem_split {separator : Char} {text part : String}
    (h : part ∈ split separator text) : separator ∉ part.toList := by
  rcases List.mem_map.mp h with ⟨l, hl, rfl⟩
  rw [String.toList_ofList]
  clear h
  generalize text.toList = cs at hl
  -- At a separator a new part begins, so none contains it.
  induction cs generalizing l with
  | nil =>
      rw [List.splitOn_nil, List.mem_singleton] at hl
      rw [hl]
      exact List.not_mem_nil
  | cons c cs ih =>
      rw [List.splitOn_cons_eq_if_modifyHead] at hl
      split at hl
      · rcases List.mem_cons.mp hl with rfl | hl
        · exact List.not_mem_nil
        · exact ih l hl
      · -- The character goes in front of the first part.
        next hc =>
          cases hparts : cs.splitOn separator with
          | nil => exact absurd hparts (List.splitOn_ne_nil _ _)
          | cons first rest =>
              rw [hparts] at hl
              rcases List.mem_cons.mp hl with rfl | hl
              · intro hmem
                rcases List.mem_cons.mp hmem with rfl | hmem
                · exact hc (beq_self_eq_true _)
                · exact ih first (hparts ▸ List.mem_cons_self) hmem
              · exact ih l (hparts ▸ List.mem_cons_of_mem _ hl)

/-- There is one part more than there are separators. -/
theorem length_split (separator : Char) (text : String) :
    (split separator text).length = text.toList.count separator + 1 := by
  unfold split
  rw [List.length_map]
  induction text.toList with
  | nil => rfl
  | cons c cs ih =>
      rw [List.splitOn_cons_eq_if_modifyHead, List.count_cons]
      split
      · rw [List.length_cons, ih]
      · rw [List.length_modifyHead, ih, Nat.add_zero]

/-- A text is cut at its last separator in one way. -/
theorem eq_of_append_cons_eq {separator : Char} {head head' tail tail' : List Char}
    (h : separator ∉ tail) (h' : separator ∉ tail')
    (heq : head ++ separator :: tail = head' ++ separator :: tail') :
    head = head' ∧ tail = tail' := by
  -- If one head were longer, the separator would lie in the other's tail.
  induction head generalizing head' with
  | nil =>
      cases head' with
      | nil => exact ⟨rfl, (List.cons.inj heq).2⟩
      | cons c head' =>
          refine absurd ?_ h
          rw [(List.cons.inj heq).2]
          exact List.mem_append_right _ List.mem_cons_self
  | cons c head ih =>
      cases head' with
      | nil =>
          refine absurd ?_ h'
          rw [← (List.cons.inj heq).2]
          exact List.mem_append_right _ List.mem_cons_self
      | cons c' head' =>
          obtain ⟨hc, hrest⟩ := List.cons.inj heq
          obtain ⟨hhead, htail⟩ := ih hrest
          exact ⟨by rw [hc, hhead], htail⟩

/-- A character of the base64url alphabet. -/
def isBase64UrlChar (c : Char) : Bool :=
  c.isAlphanum || c == '-' || c == '_'

/-- The unpadded base64url form of a number of bytes. -/
def isBase64Url (bytes : Nat) (text : String) : Bool :=
  text.length == (bytes * 4 + 2) / 3 && text.toList.all isBase64UrlChar

/-- Base64url text has no colon. -/
theorem colon_notMem_of_isBase64Url {bytes : Nat} {text : String}
    (h : isBase64Url bytes text = true) : ':' ∉ text.toList := by
  intro hmem
  have hall := (Bool.and_eq_true_iff.mp h).2
  exact absurd (List.all_eq_true.mp hall ':' hmem) (by decide)

def isSlugEnd (c : Char) : Bool := c.isLower || c.isDigit

/-- `/^[a-z0-9](?:[a-z0-9-]{0,61}[a-z0-9])?$/`, the slugs of tenants and the
    identifiers of clients. -/
def isSlug (text : List Char) : Bool :=
  text.length ≤ 63 && text.all (fun c => isSlugEnd c || c == '-') &&
    text.head?.any isSlugEnd && text.getLast?.any isSlugEnd

theorem notMem_of_isSlug {text : List Char} (h : isSlug text = true) {c : Char}
    (hc : (isSlugEnd c || c == '-') = false) : c ∉ text := by
  intro hmem
  simp only [isSlug, Bool.and_eq_true] at h
  exact absurd (List.all_eq_true.mp h.1.1.2 c hmem) (by rw [hc]; decide)

theorem colon_notMem_of_isSlug {text : List Char} (h : isSlug text = true) : ':' ∉ text :=
  notMem_of_isSlug h (by decide)

theorem ne_nil_of_isSlug {text : List Char} (h : isSlug text = true) : text ≠ [] := by
  rintro rfl
  exact absurd h (by decide)

end Sandbox
