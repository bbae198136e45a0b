import Sandbox.Whatwg.Reference

/-!
# Assigning to a URL

What becomes of a URL of a special scheme when a scheme or a host is assigned
to it. Either assignment goes through the parser, with the rest of the URL in
place, and so touches more or less than its name says. A new scheme drops the
port if that is the default of the new scheme, and keeps every other port. A
host without a port leaves the port as it was.

The host parser is a parameter again. What counts here is that it reads back
the hosts it writes, and that a host shows where it ends: it has no colon unless
it stands in brackets.

## Main definitions

* `HostParser`: A host parser with what is relied on.
* `ParsedUrl`: A URL that came out of the parser.
* `Url.host`: The host as it is read, with the port.
* `Url.setProtocol`, `Url.setHost`: The assignments.

## Theorems

* `cutPort_host`, `parsePort_toString`: A host with its port is read back.
* `setHost_host`: Assigning the host of another URL.
* `setProtocol_target`, `setHost_target`: The path stays.
-/

namespace Whatwg

/-- A character that ends neither a host nor an authority. -/
def isPlain (c : Char) : Bool := c != ':' && c != '[' && c != ']' && !isAuthorityEnd c

/-- A name or an address as a host, the latter perhaps in brackets. -/
def IsHost (text : List Char) : Prop :=
  text ≠ [] ∧ (text.all isPlain = true ∨
    ∃ address, text = '[' :: address ++ [']'] ∧
      address.all (fun c => isPlain c || c == ':') = true)

/-- The host parser, with its serializer. -/
structure HostParser where
  parse : List Char → Option String
  isHost : ∀ {text host}, parse text = some host → IsHost host.toList
  reparse : ∀ {text host}, parse text = some host → parse host.toList = some host

/-- A URL with `http` or `https` as the parser leaves it. -/
structure ParsedUrl (hosts : HostParser) extends Url where
  http : origin.scheme = "http" ∨ origin.scheme = "https"
  parsed : ∃ text, hosts.parse text = some origin.host
  bound : ∀ p ∈ origin.port, p ≤ 65535
  notDefault : ∀ p ∈ origin.port, defaultPort origin.scheme ≠ some p

namespace Url

/-- The host, with the port if there is one. -/
def host (url : Url) : List Char :=
  url.origin.host.toList ++
    match url.origin.port with
    | none => []
    | some port => ':' :: (toString port).toList

/-- Assigning to `protocol`. Both schemes are special. -/
def setProtocol (url : Url) (scheme : String) : Url :=
  { url with
    origin :=
      { url.origin with
        scheme := scheme
        port := if url.origin.port = defaultPort scheme then none else url.origin.port } }

/-- Assigning the part of a host after its colon. Reading it stops at the first
    character that is no digit. -/
def setPort (url : Url) (text : List Char) : Url :=
  let digits := text.takeWhile Char.isDigit
  if digits = [] then url
  else
    match parsePort url.origin.scheme digits with
    | none => url
    | some port => { url with origin := { url.origin with port := port } }

/-- Assigning to `host`. -/
def setHost (hosts : HostParser) (url : Url) (value : List Char) : Url :=
  let parts := cutPort false (value.takeWhile (!isAuthorityEnd ·))
  if parts.1 = [] then url
  else
    match hosts.parse parts.1 with
    | none => url
    | some host =>
        let named := { url with origin := { url.origin with host := host } }
        -- Without a port in the value, the port of the URL stays.
        match parts.2 with
        | none => named
        | some text => named.setPort text

end Url

section Hosts

/-- Characters before the colon belong to the host. -/
theorem cutPort_plain {text rest : List Char} (h : text.all isPlain = true) :
    cutPort false (text ++ rest) =
      (text ++ (cutPort false rest).1, (cutPort false rest).2) := by
  induction text with
  | nil => rfl
  | cons c text ih =>
      rw [List.all_cons, Bool.and_eq_true] at h
      have hc := h.1
      simp only [isPlain, Bool.and_eq_true, bne_iff_ne] at hc
      -- A plain character is neither a colon nor a bracket.
      obtain ⟨⟨⟨hcolon, hopen⟩, hclose⟩, -⟩ := hc
      have hnot : (c == ':' && !false) = false := by simp [hcolon]
      have hstay : (c == '[' || false && c != ']') = false := by simp [hopen]
      rw [List.cons_append, cutPort, hnot, if_neg (by decide), hstay, ih h.2]
      rfl

theorem cutPort_address {text : List Char}
    (h : text.all (fun c => isPlain c || c == ':') = true) (rest : List Char) :
    cutPort true (text ++ ']' :: rest) =
      (text ++ ']' :: (cutPort false rest).1, (cutPort false rest).2) := by
  induction text with
  | nil => rfl
  | cons c text ih =>
      rw [List.all_cons, Bool.and_eq_true] at h
      -- Within the brackets a colon begins no port.
      have hclose : c ≠ ']' := by
        rintro rfl
        exact absurd h.1 (by decide)
      have hnot : (c == ':' && !true) = false := by simp
      have hstay : (c == '[' || true && c != ']') = true := by simp [hclose]
      rw [List.cons_append, cutPort, hnot, if_neg (by decide), hstay, ih h.2]
      rfl

/-- A host shows where it ends. -/
theorem cutPort_host {text rest : List Char} (h : IsHost text) :
    cutPort false (text ++ rest) =
      (text ++ (cutPort false rest).1, (cutPort false rest).2) := by
  rcases h.2 with hplain | ⟨address, rfl, haddress⟩
  · exact cutPort_plain hplain
  · have hinside := cutPort_address haddress rest
    have htext : '[' :: address ++ [']'] ++ rest = '[' :: (address ++ ']' :: rest) := by simp
    have hopen : ('[' == '[' || false && '[' != ']') = true := by decide
    rw [htext, cutPort, if_neg (by decide), hopen, hinside]
    simp

theorem cutPort_colon (rest : List Char) : cutPort false (':' :: rest) = ([], some rest) := rfl

/-- A host has no character that ends the authority. -/
theorem not_isAuthorityEnd_of_isHost {text : List Char} (h : IsHost text) :
    ∀ c ∈ text, isAuthorityEnd c = false := by
  have hplain : ∀ c, isPlain c = true → isAuthorityEnd c = false := by
    intro c hc
    simp only [isPlain, Bool.and_eq_true, Bool.not_eq_true'] at hc
    exact hc.2
  intro c hc
  rcases h.2 with hall | ⟨address, rfl, hall⟩
  · exact hplain c (List.all_eq_true.mp hall c hc)
  · simp only [List.cons_append, List.mem_cons, List.mem_append, List.not_mem_nil, or_false] at hc
    rcases hc with rfl | hc | rfl
    · decide
    · have hkind := List.all_eq_true.mp hall c hc
      rcases Bool.or_eq_true_iff.mp hkind with hkind | hkind
      · exact hplain c hkind
      · rw [beq_iff_eq.mp hkind]
        decide
    · decide

end Hosts

section Ports

theorem isDigit_toString {n : Nat} {c : Char} (h : c ∈ (toString n).toList) : c.isDigit = true := by
  rw [Nat.toString_eq_repr, Nat.toList_repr] at h
  exact Nat.isDigit_of_mem_toDigits (by decide) (by decide) h

theorem not_isAuthorityEnd_of_isDigit {c : Char} (h : c.isDigit = true) :
    isAuthorityEnd c = false := by
  by_contra hend
  rw [Bool.not_eq_false] at hend
  simp only [isAuthorityEnd, isSlash, Bool.or_eq_true, beq_iff_eq] at hend
  rcases hend with ((rfl | rfl) | rfl) | rfl <;> exact absurd h (by decide)

theorem decimal_toString (n : Nat) : decimal (toString n).toList = n := by
  rw [Nat.toString_eq_repr, Nat.toList_repr]
  exact Nat.ofDigitChars_toDigits (by decide) (by decide)

theorem toString_ne_nil (n : Nat) : (toString n).toList ≠ [] := by
  rw [Nat.toString_eq_repr, Nat.toList_repr]
  exact Nat.toDigits_ne_nil

/-- A port that is not the default is read back. -/
theorem parsePort_toString {scheme : String} {n : Nat} (hbound : n ≤ 65535)
    (hdefault : defaultPort scheme ≠ some n) :
    parsePort scheme (toString n).toList = some (some n) := by
  have hdigits : (toString n).toList.all Char.isDigit = true :=
    List.all_eq_true.mpr fun c hc => isDigit_toString hc
  unfold parsePort
  rw [if_neg (toString_ne_nil n), hdigits, decimal_toString, if_neg (by simpa using hbound),
    if_neg hdefault]

end Ports

section Assignments

variable {hosts : HostParser}

@[simp] theorem setProtocol_target (url : Url) (scheme : String) :
    (url.setProtocol scheme).target = url.target := rfl

@[simp] theorem setPort_target (url : Url) (text : List Char) :
    (url.setPort text).target = url.target := by
  unfold Url.setPort
  dsimp only
  split
  · rfl
  · split <;> rfl

@[simp] theorem setHost_target (url : Url) (value : List Char) :
    (url.setHost hosts value).target = url.target := by
  unfold Url.setHost
  dsimp only
  split
  · rfl
  · split
    · rfl
    · split
      · rfl
      · exact setPort_target _ _

/-- Assigning the host of another URL of the same scheme: its port comes along
    if it has one. -/
theorem setHost_host (url : Url) (base : ParsedUrl hosts)
    (hscheme : url.origin.scheme = base.origin.scheme) :
    (url.setHost hosts base.host).origin =
      ⟨base.origin.scheme, base.origin.host, base.origin.port.or url.origin.port⟩ := by
  obtain ⟨text, hparsed⟩ := base.parsed
  have hhost := hosts.isHost hparsed
  have hends := not_isAuthorityEnd_of_isHost hhost
  have hne := hhost.1
  unfold Url.host
  cases hport : base.origin.port with
  | none =>
      -- Without a port the host is read to its end, and the port stays.
      have hwhole : (base.origin.host.toList ++ []).takeWhile (!isAuthorityEnd ·) =
          base.origin.host.toList ++ [] := by
        rw [List.takeWhile_eq_self_iff]
        intro c hc
        rw [List.append_nil] at hc
        rw [hends c hc]
        rfl
      unfold Url.setHost
      dsimp only
      rw [hwhole, cutPort_host hhost, cutPort, List.append_nil, if_neg hne, hosts.reparse hparsed]
      simp only [hscheme, Option.none_or]
  | some port =>
      -- The port is read back from its digits.
      have hdigits : (toString port).toList.takeWhile Char.isDigit = (toString port).toList := by
        rw [List.takeWhile_eq_self_iff]
        exact fun c hc => isDigit_toString hc
      have hwhole : (base.origin.host.toList ++ ':' :: (toString port).toList).takeWhile
          (!isAuthorityEnd ·) = base.origin.host.toList ++ ':' :: (toString port).toList := by
        rw [List.takeWhile_eq_self_iff]
        intro c hc
        rw [List.mem_append, List.mem_cons] at hc
        rcases hc with hc | rfl | hc
        · rw [hends c hc]
          rfl
        · decide
        · rw [not_isAuthorityEnd_of_isDigit (isDigit_toString hc)]
          rfl
      unfold Url.setHost
      dsimp only
      rw [hwhole, cutPort_host hhost, cutPort_colon]
      dsimp only
      rw [List.append_nil, if_neg hne, hosts.reparse hparsed]
      dsimp only
      unfold Url.setPort
      dsimp only
      rw [hdigits, if_neg (toString_ne_nil port), hscheme,
        parsePort_toString (base.bound port hport) (base.notDefault port hport)]
      rfl

end Assignments

end Whatwg
