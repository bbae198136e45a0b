import Sandbox.Shared.RedirectTemplate
import Sandbox.Web.Routes

/-!
# Hosts and Redirect URIs

The tenant of a request is worked out twice. The web process takes it from the
`Host`, by cutting off the base host, and builds the redirect URI from the whole
host. The authorization server takes it from that redirect URI, by cutting off
what the template of the service has around its placeholder. Both have to find
the same slug, or a code would be issued for another tenant than the one whose
page asked for it.

Of `toLowerCase` the first half needs nothing. The second half needs that a host
made of a slug and a lower-cased base host stays as it is, and that follows from
a text staying as it is when each of its characters does.

## Main definitions

* `PublicScheme`, `callbackTemplate`: The template of a service.
* `LowerCasing`: What is known of `toLowerCase`.

## Theorems

* `match_resolveClient`: The template finds the slug of the resolver.
* `resolveClient_expand`: Every expansion is the redirect URI of a host.
* `redirectTemplates_agree`: Templates and hosts agree.
-/

namespace Sandbox.Web

variable {jose : Jose}

inductive PublicScheme where
  | http
  | https

def PublicScheme.text : PublicScheme → String
  | .http => "http"
  | .https => "https"

/-- `scheme://{tenant}.baseHost/auth/callback` -/
def callbackTemplate (scheme : PublicScheme) (baseHost : String) : String :=
  scheme.text ++ "://" ++ String.ofList placeholder ++ "." ++ baseHost ++ "/auth/callback"

/-- What is known of `String.prototype.toLowerCase`: digits, small letters and
    punctuation stay as they are, its results consist of such characters, and a
    text of such characters stays as it is. -/
structure LowerCasing (toLowerCase : String → String) : Prop where
  ascii : ∀ c : Char, c.toNat < 128 → c.isUpper = false →
    toLowerCase (String.singleton c) = String.singleton c
  lowered : ∀ text, ∀ c ∈ (toLowerCase text).toList,
    toLowerCase (String.singleton c) = String.singleton c
  fixed : ∀ text, (∀ c ∈ text.toList, toLowerCase (String.singleton c) = String.singleton c) →
    toLowerCase text = text

section Templates

variable (scheme : PublicScheme) (baseHost : String)

theorem cut_callbackTemplate :
    cut placeholder (callbackTemplate scheme baseHost).toList =
      some ((scheme.text ++ "://").toList, ("." ++ baseHost ++ "/auth/callback").toList) := by
  have htext : (callbackTemplate scheme baseHost).toList =
      (scheme.text ++ "://").toList ++ placeholder ++
        ("." ++ baseHost ++ "/auth/callback").toList := by
    simp only [callbackTemplate, String.toList_append, String.toList_ofList, List.append_assoc]
  rw [htext]
  -- No scheme has a brace, so the placeholder is the first one.
  refine cut_append ?_
  cases scheme <;> decide

theorem placeholder_inside : placeholder <:+: (callbackTemplate scheme baseHost).toList := by
  refine ⟨(scheme.text ++ "://").toList, ("." ++ baseHost ++ "/auth/callback").toList, ?_⟩
  simp only [callbackTemplate, String.toList_append, String.toList_ofList, List.append_assoc]

theorem expand_callbackTemplate (slug : String) :
    expandRedirectUriTemplate (callbackTemplate scheme baseHost) slug =
      scheme.text ++ "://" ++ (slug ++ "." ++ baseHost) ++ "/auth/callback" := by
  unfold expandRedirectUriTemplate
  rw [cut_callbackTemplate]
  apply String.toList_inj.mp
  simp only [String.toList_ofList, String.toList_append, List.append_assoc]

end Templates

section Resolvers

variable {deps : WebDeps jose} {scheme : PublicScheme}

/-- The host of a resolved client is its slug before the base host. -/
theorem resolveClient_host {host : Option String} {client : OidcClientConfig}
    (hscheme : deps.publicScheme = scheme.text) (h : resolveClient deps host = some client) :
    isSlug client.tenantSlug.toList = true ∧
      expandRedirectUriTemplate (callbackTemplate scheme (deps.toLowerCase deps.baseHost))
        client.tenantSlug = client.redirectUri := by
  unfold resolveClient at h
  cases host with
  | none => cases h
  | some host =>
      dsimp only at h
      split at h
      · cases h
      · next hsuffix =>
          rw [Bool.not_eq_true', Bool.not_eq_false, List.isSuffixOf_iff_suffix] at hsuffix
          obtain ⟨front, hfront⟩ := hsuffix
          split at h
          · cases h
          · next hslug =>
              rw [Bool.not_eq_true', Bool.not_eq_false] at hslug
              -- What is left of the host without the suffix is what stands before it.
              have htake : (deps.toLowerCase host).toList.take
                  ((deps.toLowerCase host).toList.length -
                    ("." ++ deps.toLowerCase deps.baseHost).toList.length) = front := by
                rw [← hfront, List.length_append, Nat.add_sub_cancel, List.take_left]
              rw [htake] at h hslug
              rw [← Option.some.inj h]
              dsimp only
              rw [String.toList_ofList]
              refine ⟨hslug, ?_⟩
              have hhost : String.ofList front ++ "." ++ deps.toLowerCase deps.baseHost =
                  deps.toLowerCase host := by
                apply String.toList_inj.mp
                rw [← hfront]
                simp only [String.toList_append, String.toList_ofList, List.append_assoc]
              rw [expand_callbackTemplate, hhost, hscheme]

/-- The template finds the slug of the resolver. -/
theorem match_resolveClient {host : Option String} {client : OidcClientConfig}
    (hscheme : deps.publicScheme = scheme.text) (h : resolveClient deps host = some client) :
    matchRedirectUriTemplate (callbackTemplate scheme (deps.toLowerCase deps.baseHost))
      client.redirectUri = some client.tenantSlug := by
  obtain ⟨hslug, hexpand⟩ := resolveClient_host hscheme h
  rw [← hexpand]
  exact match_expand (placeholder_inside _ _) hslug

theorem not_isUpper_of_lt {c : Char} (h : c.toNat < 65 ∨ 90 < c.toNat) : c.isUpper = false := by
  refine decide_eq_false fun ⟨hlow, hhigh⟩ => ?_
  have hl : 65 ≤ c.toNat := hlow
  have hh : c.toNat ≤ 90 := hhigh
  omega

/-- Small letters, digits and the hyphen are lower case. -/
theorem LowerCasing.slug {toLowerCase : String → String} (hlower : LowerCasing toLowerCase)
    {slug : List Char} (h : isSlug slug = true) {c : Char} (hc : c ∈ slug) :
    toLowerCase (String.singleton c) = String.singleton c := by
  simp only [isSlug, Bool.and_eq_true] at h
  have hkind := List.all_eq_true.mp h.1.1.2 c hc
  have hbound : c.toNat < 128 ∧ c.isUpper = false := by
    change ((decide _ && decide _ || decide _ && decide _) || _) = true at hkind
    simp only [Bool.or_eq_true, Bool.and_eq_true, decide_eq_true_eq, beq_iff_eq] at hkind
    rcases hkind with (⟨hlow, hhigh⟩ | ⟨hlow, hhigh⟩) | rfl
    · have hl : 97 ≤ c.toNat := hlow
      have hh : c.toNat ≤ 122 := hhigh
      exact ⟨by omega, not_isUpper_of_lt (.inr (by omega))⟩
    · have hl : 48 ≤ c.toNat := hlow
      have hh : c.toNat ≤ 57 := hhigh
      exact ⟨by omega, not_isUpper_of_lt (.inl (by omega))⟩
    · decide
  exact hlower.ascii c hbound.1 hbound.2

/-- Every expansion is the redirect URI of the host made of the slug and the
    base host. -/
theorem resolveClient_expand (hscheme : deps.publicScheme = scheme.text)
    (hlower : LowerCasing deps.toLowerCase) {slug : String} (hslug : isSlug slug.toList = true) :
    ∃ host client, resolveClient deps (some host) = some client ∧ client.redirectUri =
      expandRedirectUriTemplate
        (callbackTemplate scheme (deps.toLowerCase deps.baseHost)) slug := by
  generalize hbase : deps.toLowerCase deps.baseHost = base
  -- The host is in lower case already.
  have hhost : deps.toLowerCase (slug ++ "." ++ base) = slug ++ "." ++ base := by
    refine hlower.fixed _ fun c hc => ?_
    simp only [String.toList_append, List.mem_append] at hc
    rcases hc with (hc | hc) | hc
    · exact hlower.slug hslug hc
    · have hdot : c = '.' := by simpa using hc
      subst hdot
      exact hlower.ascii '.' (by decide) (by decide)
    · rw [← hbase] at hc
      exact hlower.lowered _ c hc
  have hsuffix : ("." ++ base).toList.isSuffixOf (slug ++ "." ++ base).toList = true := by
    refine List.isSuffixOf_iff_suffix.mpr ⟨slug.toList, ?_⟩
    simp only [String.toList_append, List.append_assoc]
  -- What is left before the suffix is the slug.
  have htake : (slug ++ "." ++ base).toList.take
      ((slug ++ "." ++ base).toList.length - ("." ++ base).toList.length) = slug.toList := by
    have htext : (slug ++ "." ++ base).toList = slug.toList ++ ("." ++ base).toList := by
      simp only [String.toList_append, List.append_assoc]
    rw [htext, List.length_append, Nat.add_sub_cancel, List.take_left]
  refine ⟨slug ++ "." ++ base,
    { deps.service with
      tenantSlug := slug
      redirectUri := deps.publicScheme ++ "://" ++ (slug ++ "." ++ base) ++ "/auth/callback" },
    ?_, ?_⟩
  · unfold resolveClient
    dsimp only
    rw [hhost, hbase, hsuffix, if_neg (by decide), htake, hslug, if_neg (by decide),
      String.ofList_toList]
  · rw [expand_callbackTemplate, hscheme]

end Resolvers

/-- Matching a template is expanding it backwards, with slugs and nothing else.
    The redirect URIs of the resolver are the expansions of the service's
    template, each with the slug that the resolver has found. -/
theorem redirectTemplates_agree :
    (∀ template redirectUri slug : String, placeholder <:+: template.toList →
      (matchRedirectUriTemplate template redirectUri = some slug ↔
        isSlug slug.toList = true ∧ expandRedirectUriTemplate template slug = redirectUri)) ∧
    (∀ (jose : Jose) (deps : WebDeps jose) (scheme : PublicScheme),
      deps.publicScheme = scheme.text →
      ∀ host client, resolveClient deps host = some client →
        matchRedirectUriTemplate (callbackTemplate scheme (deps.toLowerCase deps.baseHost))
          client.redirectUri = some client.tenantSlug) ∧
    ∀ (jose : Jose) (deps : WebDeps jose) (scheme : PublicScheme),
      deps.publicScheme = scheme.text → LowerCasing deps.toLowerCase →
      ∀ slug : String, isSlug slug.toList = true →
        ∃ host client, resolveClient deps (some host) = some client ∧ client.redirectUri =
          expandRedirectUriTemplate (callbackTemplate scheme (deps.toLowerCase deps.baseHost))
            slug := by
  refine ⟨fun template redirectUri slug h => match_iff_expand h, ?_, ?_⟩
  · intro jose deps scheme hscheme host client h
    exact match_resolveClient hscheme h
  · intro jose deps scheme hscheme hlower slug hslug
    exact resolveClient_expand hscheme hlower hslug

section Example

/-- The part of `toLowerCase` that keeps to ASCII. -/
def lowerAscii (text : String) : String := String.ofList (text.toList.map Char.toLower)

theorem toLower_of_not_isUpper {c : Char} (h : c.isUpper = false) : c.toLower = c := by
  have hrange : ¬(c.val ≥ 'A'.val ∧ c.val ≤ 'Z'.val) := of_decide_eq_false h
  exact dif_neg hrange

theorem isUpper_toLower (c : Char) : c.toLower.isUpper = false := by
  by_cases h : c.val ≥ 'A'.val ∧ c.val ≤ 'Z'.val
  · apply not_isUpper_of_lt
    have hl : 65 ≤ c.val.toNat := h.1
    have hh : c.val.toNat ≤ 90 := h.2
    have hval : c.toLower.toNat = (c.val.toNat + 32) % 2 ^ 32 := by
      exact congrArg Char.toNat (dif_pos h)
    omega
  · have hsame : c.toLower = c := dif_neg h
    rw [hsame]
    exact decide_eq_false h

theorem lowerCasing_lowerAscii : LowerCasing lowerAscii where
  ascii c _ hupper := by
    have hsame : c.toLower = c := toLower_of_not_isUpper hupper
    simp [lowerAscii, hsame]
  lowered text c hc := by
    rw [lowerAscii, String.toList_ofList, List.mem_map] at hc
    obtain ⟨d, -, rfl⟩ := hc
    simp [lowerAscii, toLower_of_not_isUpper (isUpper_toLower d)]
  fixed text h := by
    apply String.toList_inj.mp
    rw [lowerAscii, String.toList_ofList]
    have hsame : ∀ c ∈ text.toList, c.toLower = id c := by
      intro c hc
      simpa [lowerAscii] using h c hc
    rw [List.map_congr_left hsame, List.map_id]

/-- The web process of a CRM. -/
def upperCaseWeb : WebDeps openJose where
  issuer := "https://auth.test"
  publicScheme := "https"
  baseHost := "CRM.test"
  service := ⟨"crm", "secret", ["openid"], ⟨⟨"https", "crm-api.test", none⟩, ['/']⟩, "CRM"⟩
  toLowerCase := lowerAscii
  computeCodeChallenge verifier := verifier
  parseHost host := some (String.ofList host)

theorem redirectTemplates_agree_crm :
    ∃ host client, resolveClient upperCaseWeb (some host) = some client ∧ client.redirectUri =
      expandRedirectUriTemplate (callbackTemplate .https "crm.test") "acme" := by
  have hbase : upperCaseWeb.toLowerCase upperCaseWeb.baseHost = "crm.test" := by decide
  rw [← hbase]
  exact redirectTemplates_agree.2.2 openJose upperCaseWeb .https rfl lowerCasing_lowerAscii "acme"
    (by decide)

end Example

end Sandbox.Web
