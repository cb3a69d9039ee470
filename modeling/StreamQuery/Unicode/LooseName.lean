/-!
# Loose names

The names of properties and of their values are compared without regard to case, blanks, hyphens,
underscores and a leading `is`.
-/

namespace StreamQuery.Unicode

/-- A name as it is compared. Nothing but `c` after `is` is the name `isc`, so that it does not
become the name of a category. -/
def looseName (name : List Char) : String :=
  let (name, shortened) := match name with
    | i :: s :: rest =>
      if i.toLower == 'i' && s.toLower == 's' then (rest, true) else (name, false)
    | _ => (name, false)
  let kept := (name.filter fun c => c.toNat < 128 && c != ' ' && c != '_' && c != '-').map
    Char.toLower
  if shortened && kept == ['c'] then "isc" else String.ofList kept

/-- Whether one of some names is meant by a name in its loose form. -/
def namesInclude (names : List String) (loose : String) : Bool :=
  names.any fun name => looseName name.toList == loose

end StreamQuery.Unicode
