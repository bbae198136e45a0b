import Mathlib.Data.List.DropRight

/-!
# Resolving References

How a reference without a scheme is resolved against a URL of a special
scheme, such as `http` or `https`. What matters here is where the result
points: to the host of the base, or to a host the reference names.

A reference names a host if it begins with two slashes, and a backslash is as
good as a slash. Spaces and control characters around a reference are cut off
before that, and tabs and line ends anywhere in it.

The host parser is a parameter, since it rests on the tables of Unicode.
Paths are kept as they are written. The standard also removes their dot
segments and escapes characters, which no host depends on.

## Main definitions

* `Url`, `Url.origin`: A URL and where it points.
* `strip`: What is removed from a reference before it is read.
* `namedAuthority`, `parseAuthority`: The authority a reference names.
* `resolve`: The URL a reference stands for.
* `StaysAt`: A reference that does not lead to another host.

## Theorems

* `resolve_origin_iff`: Exactly these are resolved to the origin of the base.
* `resolve_path`: A path that begins with one slash is one of them.
-/

namespace Whatwg

/-- Scheme, host and port. The default port of a scheme is `none`. -/
structure Origin where
  scheme : String
  host : String
  port : Option Nat
  deriving DecidableEq

/-- A URL of a special scheme. -/
structure Url where
  origin : Origin
  /-- Path, query and fragment. -/
  target : List Char
  deriving DecidableEq

section Reading

def isC0ControlOrSpace (c : Char) : Bool := c.toNat ≤ 0x20

def isTabOrNewline (c : Char) : Bool := c == '\t' || c == '\n' || c == '\r'

/-- What is read of a reference. -/
def strip (reference : List Char) : List Char :=
  ((reference.dropWhile isC0ControlOrSpace).rdropWhile isC0ControlOrSpace).filter
    (!isTabOrNewline ·)

def isSlash (c : Char) : Bool := c == '/' || c == '\\'

/-- What an authority ends before. -/
def isAuthorityEnd (c : Char) : Bool := isSlash c || c == '?' || c == '#'

/-- What follows two slashes and any more of them, if a reference begins so. -/
def afterSlashes (reference : List Char) : Option (List Char) :=
  match strip reference with
  | c :: d :: rest => if isSlash c && isSlash d then some (rest.dropWhile isSlash) else none
  | _ => none

/-- The authority a reference names. -/
def namedAuthority (reference : List Char) : Option (List Char) :=
  (afterSlashes reference).map (·.takeWhile (!isAuthorityEnd ·))

/-- Host and port at the first colon that is not in brackets. -/
def cutPort (inBrackets : Bool) : List Char → List Char × Option (List Char)
  | [] => ([], none)
  | c :: cs =>
      if c == ':' && !inBrackets then ([], some cs)
      else
        let rest := cutPort (c == '[' || inBrackets && c != ']') cs
        (c :: rest.1, rest.2)

def decimal (digits : List Char) : Nat :=
  digits.foldl (fun n c => 10 * n + (c.toNat - '0'.toNat)) 0

def defaultPort (scheme : String) : Option Nat :=
  if scheme = "http" ∨ scheme = "ws" then some 80
  else if scheme = "https" ∨ scheme = "wss" then some 443
  else if scheme = "ftp" then some 21
  else none

/-- The port of an authority, if it is one. -/
def parsePort (scheme : String) (digits : List Char) : Option (Option Nat) :=
  if digits = [] then some none
  else if !digits.all Char.isDigit || 65535 < decimal digits then none
  else if defaultPort scheme = some (decimal digits) then some none
  else some (some (decimal digits))

/-- Where an authority points. What is before an `@` are credentials. -/
def parseAuthority (parseHost : List Char → Option String) (scheme : String)
    (authority : List Char) : Option Origin :=
  let parts := cutPort false ((authority.splitOn '@').getLastD [])
  if parts.1 = [] then none
  else
    match parseHost parts.1, parsePort scheme (parts.2.getD []) with
    | some host, some port => some ⟨scheme, host, port⟩
    | _, _ => none

end Reading

/-- The target of a reference that names no host. One without a path has the
    path of the base. -/
def mergeTarget (base : Url) (reference : List Char) : List Char :=
  match strip reference with
  | [] => base.target.takeWhile (· ≠ '#')
  | c :: cs =>
      if isSlash c then c :: cs
      else base.target.takeWhile (fun d => d ≠ '?' && d ≠ '#') ++ c :: cs

/-- `new URL(reference, base)` for a reference that has no scheme and begins
    with a slash or a query, or is empty. `none` is the exception. -/
def resolve (parseHost : List Char → Option String) (base : Url) (reference : List Char) :
    Option Url :=
  match afterSlashes reference with
  | none => some ⟨base.origin, mergeTarget base reference⟩
  | some rest =>
      (parseAuthority parseHost base.origin.scheme (rest.takeWhile (!isAuthorityEnd ·))).map
        fun origin => ⟨origin, rest.dropWhile (!isAuthorityEnd ·)⟩

/-- A reference that names no authority, or no valid one, or that of the base. -/
def StaysAt (parseHost : List Char → Option String) (base : Url) (reference : List Char) : Prop :=
  ∀ authority origin, namedAuthority reference = some authority →
    parseAuthority parseHost base.origin.scheme authority = some origin → origin = base.origin

/-- A reference leads to the origin of the base, if anywhere, exactly if it
    names no other. -/
theorem resolve_origin_iff {parseHost : List Char → Option String} {base : Url}
    {reference : List Char} :
    (∀ url, resolve parseHost base reference = some url → url.origin = base.origin) ↔
      StaysAt parseHost base reference := by
  unfold resolve StaysAt namedAuthority
  cases afterSlashes reference with
  | none =>
      constructor
      · exact fun _ _ _ h => nomatch h
      · rintro _ url h
        cases h
        rfl
  | some rest =>
      constructor
      · rintro h authority origin hauthority horigin
        cases hauthority
        exact h ⟨origin, _⟩ (by rw [Option.map_eq_some_iff]; exact ⟨origin, horigin, rfl⟩)
      · intro h url hurl
        rcases Option.map_eq_some_iff.mp hurl with ⟨origin, horigin, rfl⟩
        exact h _ origin rfl horigin

/-- A path that begins with one slash and has no tabs or line ends names no
    host. -/
theorem afterSlashes_path {path : List Char} (hplain : ∀ c ∈ path, isTabOrNewline c = false)
    (hhead : ∀ c, path.head? = some c → isSlash c = false) : afterSlashes ('/' :: path) = none := by
  have hslash : isC0ControlOrSpace '/' = false := by decide
  -- What is cut off at the end leaves a prefix, and nothing is cut out of it.
  have hkeeps : List.rdropWhile isC0ControlOrSpace ('/' :: path) <+: '/' :: path :=
    List.rdropWhile_prefix _ _
  have hkept : strip ('/' :: path) = List.rdropWhile isC0ControlOrSpace ('/' :: path) := by
    unfold strip
    rw [List.dropWhile_cons_of_neg (by rw [hslash]; exact Bool.false_ne_true)]
    refine List.filter_eq_self.mpr fun c hc => ?_
    rcases List.mem_cons.mp (hkeeps.subset hc) with rfl | hc
    · decide
    · rw [hplain c hc]
      rfl
  unfold afterSlashes
  rw [hkept]
  split
  · next c d rest heq =>
      rw [heq] at hkeeps
      rcases List.cons_prefix_cons.mp hkeeps with ⟨_, htail⟩
      cases path with
      | nil => exact absurd htail.length_le (by simp)
      | cons d' path =>
          have hd := (List.cons_prefix_cons.mp htail).1
          rw [hd, hhead d' rfl, Bool.and_false]
          exact if_neg Bool.false_ne_true
  · rfl

/-- Such a path is resolved to the origin of any base. -/
theorem resolve_path {parseHost : List Char → Option String} {base : Url} {path : List Char}
    (hplain : ∀ c ∈ path, isTabOrNewline c = false)
    (hhead : ∀ c, path.head? = some c → isSlash c = false) :
    ∃ url, resolve parseHost base ('/' :: path) = some url ∧ url.origin = base.origin := by
  unfold resolve
  rw [afterSlashes_path hplain hhead]
  exact ⟨_, rfl, rfl⟩

example : resolve (fun host => some (String.ofList host))
    ⟨⟨"https", "crm-api.test", none⟩, "/".toList⟩ "//evil.test/x".toList =
    some ⟨⟨"https", "evil.test", none⟩, "/x".toList⟩ := by decide +kernel

end Whatwg
