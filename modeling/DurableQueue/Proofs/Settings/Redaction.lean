import DurableQueue.Proofs.Text.Split
import DurableQueue.Settings.Basic

/-!
Database addresses that are shown.

The password of an address may hold the very marks by which the address is taken apart, any number of times
and next to the true ones. What is shown of an address does not depend on it (`passwords_hidden`): three stars
stand in its place. An address without a password is shown as it is.
-/

namespace DurableQueue

namespace Url

variable {scheme user password host url : String} {before after cs : List Char}

/-- The address of a host, with the name and the password of a user. -/
def address (scheme user password host : String) : String :=
  scheme ++ "://" ++ user ++ ":" ++ password ++ "@" ++ host

theorem toList_address (scheme user password host : String) :
    (address scheme user password host).toList =
      scheme.toList ++ schemeMark ++ (user.toList ++ ':' :: (password.toList ++ '@' :: host.toList)) := by
  simp [address, schemeMark]

/-- An address with these parts: the scheme ends at the first `://`, the host begins after the last `@`, and
the name of the user ends at the first colon. Only the password may hold any characters. -/
structure HasParts (url scheme user password host : String) : Prop where
  url_eq : url = address scheme user password host
  scheme : ¬schemeMark <:+: scheme.toList
  user : ':' ∉ user.toList
  host : '@' ∉ host.toList

/-- A text is split at the first mark between a scheme and the rest. No end of this mark is a beginning of it,
so the last characters of a scheme do not make up another one with it. -/
theorem splitFirst_schemeMark_eq_some_iff :
    Text.splitFirst schemeMark cs = some (before, after) ↔
      cs = before ++ schemeMark ++ after ∧ ¬schemeMark <:+: before := by
  have hne : schemeMark ≠ [] := List.cons_ne_nil _ _
  rw [Text.splitFirst_eq_some_iff hne]
  refine and_congr_right fun _ => not_congr ?_
  constructor
  · intro hin
    rcases List.infix_append_iff_ne_nil.mp hin with hin | hin | ⟨start, tail, hstart, htail, heq, -, hprefix⟩
    · exact hin
    · exact absurd hin (by decide)
    · obtain ⟨x, start, rfl⟩ := List.exists_cons_of_ne_nil hstart
      obtain ⟨y, tail, rfl⟩ := List.exists_cons_of_ne_nil htail
      -- the rest of the mark begins with a slash, and the mark with a colon
      have hy : y = ':' := (List.cons_prefix_cons.mp hprefix).1
      have hrest : ['/', '/'] = start ++ y :: tail := (List.cons.inj heq).2
      have hmem : y ∈ ['/', '/'] := by simp [hrest]
      simp [hy] at hmem
  · exact List.infix_append_of_infix_left

theorem redact_of_parts (h : HasParts url scheme user password host) :
    redact url = address scheme user "***" host := by
  have hscheme : Text.splitFirst schemeMark url.toList =
      some (scheme.toList, user.toList ++ ':' :: (password.toList ++ '@' :: host.toList)) :=
    splitFirst_schemeMark_eq_some_iff.mpr ⟨by rw [h.url_eq, toList_address], h.scheme⟩
  have hhost : Text.splitLast '@' (user.toList ++ ':' :: (password.toList ++ '@' :: host.toList)) =
      some (user.toList ++ ':' :: password.toList, host.toList) :=
    Text.splitLast_eq_some_iff.mpr ⟨by simp, h.host⟩
  have huser : Text.splitFirst [':'] (user.toList ++ ':' :: password.toList) =
      some (user.toList, password.toList) :=
    Text.splitFirst_singleton_eq_some_iff.mpr ⟨rfl, h.user⟩
  rw [← String.toList_inj, toList_address]
  simp only [redact, redactChars, hscheme, hhost, huser, String.toList_ofList]
  simp [mask]

theorem redact_of_no_parts (h : ∀ scheme user password host, ¬HasParts url scheme user password host) :
    redact url = url := by
  have hself : String.ofList url.toList = url := String.ofList_toList
  cases hscheme : Text.splitFirst schemeMark url.toList with
  | none => simp only [redact, redactChars, hscheme, hself]
  | some parts =>
    obtain ⟨scheme, rest⟩ := parts
    cases hhost : Text.splitLast '@' rest with
    | none => simp only [redact, redactChars, hscheme, hhost, hself]
    | some parts =>
      obtain ⟨account, host⟩ := parts
      cases huser : Text.splitFirst [':'] account with
      | none => simp only [redact, redactChars, hscheme, hhost, huser, hself]
      | some parts =>
        obtain ⟨user, password⟩ := parts
        obtain ⟨hurl, hscheme⟩ := splitFirst_schemeMark_eq_some_iff.mp hscheme
        obtain ⟨rfl, hhost⟩ := Text.splitLast_eq_some_iff.mp hhost
        obtain ⟨rfl, huser⟩ := Text.splitFirst_singleton_eq_some_iff.mp huser
        refine absurd ⟨?_, ?_, ?_, ?_⟩
          (h (String.ofList scheme) (String.ofList user) (String.ofList password) (String.ofList host))
        · rw [← String.toList_inj, toList_address, hurl]
          simp
        · rwa [String.toList_ofList]
        · rwa [String.toList_ofList]
        · rwa [String.toList_ofList]

end Url

namespace Settings

open Url

/-- What is shown of the database address of a node is the same for every password in it: the address with three
stars in the place of the password. Any address that has none is shown as it is. -/
theorem passwords_hidden :
    (∀ (s t : Settings) (scheme user host p q : String), HasParts s.databaseUrl scheme user p host →
      HasParts t.databaseUrl scheme user q host →
        s.redactedDatabaseUrl = scheme ++ "://" ++ user ++ ":***@" ++ host ∧
        t.redactedDatabaseUrl = scheme ++ "://" ++ user ++ ":***@" ++ host) ∧
    ∀ s : Settings, s.redactedDatabaseUrl ≠ s.databaseUrl →
      ∃ scheme user password host, HasParts s.databaseUrl scheme user password host := by
  constructor
  · intro s t scheme user host p q hs ht
    have hshown : address scheme user "***" host = scheme ++ "://" ++ user ++ ":***@" ++ host := by
      rw [← String.toList_inj, toList_address]
      simp [schemeMark]
    rw [← hshown]
    exact ⟨redact_of_parts hs, redact_of_parts ht⟩
  · intro s hne
    by_contra hnone
    refine hne (redact_of_no_parts fun scheme user password host h => hnone ?_)
    exact ⟨scheme, user, password, host, h⟩

/-- A password of marks and no password at all, of a user whose name holds an `@` and under a scheme that ends in
characters of the mark. -/
theorem passwords_hidden_marks :
    HasParts "pg:/://bus@eu:p@ss:://word@db:5432/bus?at=://" "pg:/" "bus@eu" "p@ss:://word" "db:5432/bus?at=://" ∧
    HasParts "pg:/://bus@eu:@db:5432/bus?at=://" "pg:/" "bus@eu" "" "db:5432/bus?at=://" ∧
    { standard with databaseUrl := "pg:/://bus@eu:p@ss:://word@db:5432/bus?at=://" }.redactedDatabaseUrl =
      "pg:/://bus@eu:***@db:5432/bus?at=://" ∧
    { standard with databaseUrl := "pg:/://bus@eu:@db:5432/bus?at=://" }.redactedDatabaseUrl =
      "pg:/://bus@eu:***@db:5432/bus?at=://" := by
  have hmarks : HasParts "pg:/://bus@eu:p@ss:://word@db:5432/bus?at=://" "pg:/" "bus@eu" "p@ss:://word"
      "db:5432/bus?at=://" := ⟨by decide, by decide, by decide, by decide⟩
  have hempty : HasParts "pg:/://bus@eu:@db:5432/bus?at=://" "pg:/" "bus@eu" "" "db:5432/bus?at=://" :=
    ⟨by decide, by decide, by decide, by decide⟩
  obtain ⟨hfirst, hsecond⟩ := passwords_hidden.1
    { standard with databaseUrl := "pg:/://bus@eu:p@ss:://word@db:5432/bus?at=://" }
    { standard with databaseUrl := "pg:/://bus@eu:@db:5432/bus?at=://" } _ _ _ _ _ hmarks hempty
  exact ⟨hmarks, hempty, hfirst, hsecond⟩

end Settings

end DurableQueue
