import Sandbox.Shared.Text

/-!
# Redirect Templates

A service registers one redirect URI with a placeholder for the tenant. A
request names its tenant only through the redirect URI it asks for: the part
in place of the placeholder is the slug.

## Main definitions

* `cut`: The text before and after the first occurrence of a pattern.
* `expandRedirectUriTemplate`: A template with a slug in place of the
  placeholder.
* `matchRedirectUriTemplate`: The slug a redirect URI has in a template.
* `substitute`: What the patterns of a replacement with `$` stand for.

## Theorems

* `eq_expand_of_match`: Only expansions match.
* `match_iff_expand`: Exactly the expansions with slugs match.
* `expand_eq_substitute`: A slug has no replacement pattern.
-/

namespace Sandbox

/-- The text before and after the first occurrence of a pattern. -/
def cut (pattern : List Char) : List Char → Option (List Char × List Char)
  | [] => if pattern.isPrefixOf [] then some ([], []) else none
  | c :: cs =>
      if pattern.isPrefixOf (c :: cs) then some ([], (c :: cs).drop pattern.length)
      else (cut pattern cs).map fun parts => (c :: parts.1, parts.2)

/-- The placeholder of the tenant's slug. -/
def placeholder : List Char := "\x7btenant\x7d".toList

/-- A template with a slug in place of its first placeholder. A slug has no
    `$`, so it stands for itself as a replacement. -/
def expandRedirectUriTemplate (template tenantSlug : String) : String :=
  match cut placeholder template.toList with
  | none => template
  | some (front, rear) => String.ofList (front ++ tenantSlug.toList ++ rear)

/-- The slug a redirect URI has in a template, if the URI is the template with
    a slug in place of the placeholder. -/
def matchRedirectUriTemplate (template redirectUri : String) : Option String :=
  match cut placeholder template.toList with
  | none => none
  | some (front, rear) =>
      let uri := redirectUri.toList
      -- The slug has at least one character.
      if uri.length ≤ front.length + rear.length then none
      else if !(front.isPrefixOf uri) || !(rear.isSuffixOf uri) then none
      else
        let slug := (uri.drop front.length).take (uri.length - rear.length - front.length)
        if isSlug slug then some (String.ofList slug) else none

/-- A text with this front and this rear, and something in between. -/
theorem eq_between {front rear text : List Char}
    (hlength : front.length + rear.length ≤ text.length)
    (hfront : front.isPrefixOf text = true) (hrear : rear.isSuffixOf text = true) :
    text = front ++ (text.drop front.length).take (text.length - rear.length - front.length) ++
      rear := by
  rcases List.isPrefixOf_iff_prefix.mp hfront with ⟨tail, rfl⟩
  rcases List.isSuffixOf_iff_suffix.mp hrear with ⟨init, heq⟩
  have hlen : init.length + rear.length = front.length + tail.length := by
    rw [← List.length_append, heq, List.length_append]
  rw [List.length_append] at hlength
  -- What follows the front ends with the rear.
  have htail : rear = tail.drop (tail.length - rear.length) := by
    have hcount : init.length - front.length = tail.length - rear.length := by omega
    calc rear = (front ++ tail).drop init.length := by rw [← heq, List.drop_left]
      _ = tail.drop (init.length - front.length) := by
          rw [List.drop_append, List.drop_of_length_le (by omega), List.nil_append]
      _ = tail.drop (tail.length - rear.length) := by rw [hcount]
  rw [List.drop_left, List.append_assoc]
  congr 1
  rw [List.length_append]
  have htake :
        front.length + tail.length - rear.length - front.length = tail.length - rear.length := by
    omega
  rw [htake]
  conv_lhs => rw [← List.take_append_drop (tail.length - rear.length) tail]
  rw [← htail]

/-- Only expansions match: a redirect URI that has a slug in a template is the
    template with that slug. -/
theorem eq_expand_of_match {template redirectUri slug : String}
    (h : matchRedirectUriTemplate template redirectUri = some slug) :
    redirectUri = expandRedirectUriTemplate template slug ∧ isSlug slug.toList = true := by
  unfold matchRedirectUriTemplate at h
  unfold expandRedirectUriTemplate
  cases hcut : cut placeholder template.toList with
  | none =>
      rw [hcut] at h
      cases h
  | some parts =>
      rcases parts with ⟨front, rear⟩
      rw [hcut] at h
      dsimp only at h ⊢
      split at h
      · cases h
      · next hlength =>
          split at h
          · cases h
          · next hends =>
              split at h
              · next hslug =>
                  -- Front and rear match, so the slug is what lies between.
                  rw [Bool.or_eq_true, not_or, Bool.not_eq_true', Bool.not_eq_true',
                    Bool.not_eq_false, Bool.not_eq_false] at hends
                  rw [← Option.some.inj h, String.toList_ofList]
                  refine ⟨?_, hslug⟩
                  rw [← eq_between (by omega) hends.1 hends.2, String.ofList_toList]
              · cases h

/-- A text that contains the pattern is cut at it. -/
theorem exists_cut {pattern text : List Char} (h : pattern <:+: text) :
    ∃ front rear, cut pattern text = some (front, rear) := by
  induction text with
  | nil =>
      rw [List.infix_nil] at h
      subst h
      exact ⟨[], [], rfl⟩
  | cons c text ih =>
      rw [cut]
      -- The pattern begins here, or it lies in the rest.
      by_cases hprefix : pattern.isPrefixOf (c :: text) = true
      · rw [if_pos hprefix]
        exact ⟨_, _, rfl⟩
      · rw [if_neg hprefix]
        rcases List.infix_cons_iff.mp h with h | h
        · exact absurd (List.isPrefixOf_iff_prefix.mpr h) hprefix
        · obtain ⟨front, rear, hcut⟩ := ih h
          exact ⟨c :: front, rear, by rw [hcut]; rfl⟩

/-- The first occurrence is after a text without its first character. -/
theorem cut_append {c : Char} {pattern front rear : List Char} (h : c ∉ front) :
    cut (c :: pattern) (front ++ (c :: pattern) ++ rear) = some (front, rear) := by
  induction front with
  | nil =>
      rw [List.nil_append, List.cons_append, cut, ← List.cons_append, if_pos
        (List.isPrefixOf_iff_prefix.mpr (List.prefix_append _ _)), List.drop_left]
  | cons d front ih =>
      -- The pattern begins with `c`, which is nowhere in the front.
      have hne : ¬(c :: pattern).isPrefixOf (d :: (front ++ (c :: pattern) ++ rear)) = true := by
        intro hprefix
        obtain ⟨heq, -⟩ := List.cons_prefix_cons.mp (List.isPrefixOf_iff_prefix.mp hprefix)
        exact h (heq ▸ List.mem_cons_self)
      rw [List.cons_append, List.cons_append, cut, if_neg hne,
        ih fun hmem => h (List.mem_cons_of_mem _ hmem)]
      rfl

/-- The expansion with a slug has that slug. -/
theorem match_expand {template slug : String} (h : placeholder <:+: template.toList)
    (hslug : isSlug slug.toList = true) :
    matchRedirectUriTemplate template (expandRedirectUriTemplate template slug) = some slug := by
  obtain ⟨front, rear, hcut⟩ := exists_cut h
  have hpos := List.length_pos_iff.mpr (ne_nil_of_isSlug hslug)
  have hlength : (front ++ slug.toList ++ rear).length =
      front.length + slug.toList.length + rear.length := by
    rw [List.length_append, List.length_append]
  have hfront : front.isPrefixOf (front ++ slug.toList ++ rear) = true := by
    rw [List.append_assoc]
    exact List.isPrefixOf_iff_prefix.mpr (List.prefix_append _ _)
  have hrear : rear.isSuffixOf (front ++ slug.toList ++ rear) = true :=
    List.isSuffixOf_iff_suffix.mpr (List.suffix_append _ _)
  -- Between front and rear stands the slug again.
  have hbetween : ((front ++ slug.toList ++ rear).drop front.length).take
      (front.length + slug.toList.length + rear.length - rear.length - front.length) =
      slug.toList := by
    rw [List.append_assoc, List.drop_left, Nat.add_sub_cancel, Nat.add_sub_cancel_left,
      List.take_left]
  unfold matchRedirectUriTemplate expandRedirectUriTemplate
  rw [hcut]
  dsimp only
  rw [String.toList_ofList, hlength, if_neg (by omega), hfront, hrear, hbetween, if_neg (by decide),
    if_pos hslug, String.ofList_toList]

/-- Matching is expanding backwards, with slugs and nothing else. -/
theorem match_iff_expand {template redirectUri slug : String}
    (h : placeholder <:+: template.toList) :
    matchRedirectUriTemplate template redirectUri = some slug ↔
      isSlug slug.toList = true ∧ expandRedirectUriTemplate template slug = redirectUri := by
  constructor
  · intro hmatch
    obtain ⟨hexpand, hslug⟩ := eq_expand_of_match hmatch
    exact ⟨hslug, hexpand.symm⟩
  · rintro ⟨hslug, rfl⟩
    exact match_expand h hslug

/-- What `$` and a character stand for in a replacement, with the text that is
    replaced and the text around it. -/
def dollarPattern (matched front rear : List Char) (c : Char) : Option (List Char) :=
  if c = '$' then some ['$']
  else if c = '&' then some matched
  else if c.toNat = 0x60 then some front
  else if c.toNat = 0x27 then some rear
  else none

/-- What a replacement stands for. -/
def substitute (matched front rear : List Char) : List Char → List Char
  | [] => []
  | [c] => [c]
  | c :: d :: cs =>
      match if c = '$' then dollarPattern matched front rear d else none with
      | some text => text ++ substitute matched front rear cs
      | none => c :: substitute matched front rear (d :: cs)

theorem substitute_eq_self (matched front rear : List Char) :
    ∀ {text : List Char}, '$' ∉ text → substitute matched front rear text = text
  | [], _ => rfl
  | [_], _ => rfl
  | c :: d :: cs, h => by
      have hc : c ≠ '$' := fun heq => h (heq ▸ List.mem_cons_self)
      rw [substitute, if_neg hc]
      exact congrArg (c :: ·)
        (substitute_eq_self matched front rear fun hmem => h (List.mem_cons_of_mem _ hmem))

/-- A slug has no replacement pattern: `template.replace` puts it in as it is. -/
theorem expand_eq_substitute {template slug : String} {front rear : List Char}
    (hcut : cut placeholder template.toList = some (front, rear))
    (hslug : isSlug slug.toList = true) :
    expandRedirectUriTemplate template slug =
      String.ofList (front ++ substitute placeholder front rear slug.toList ++ rear) := by
  rw [substitute_eq_self _ _ _ (notMem_of_isSlug hslug (by decide))]
  unfold expandRedirectUriTemplate
  rw [hcut]

example : matchRedirectUriTemplate "https://\x7btenant\x7d.crm.test/cb"
    "https://acme.crm.test/cb" = some "acme" := by decide

end Sandbox
