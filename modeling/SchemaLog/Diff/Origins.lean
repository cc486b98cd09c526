import SchemaLog.History

/-!
# Diff/Origins — under which name a field of an older schema lives now

Walking along the renamings after a version, an `Origins` list remembers for each name that was
given the name it goes back to, so that a chain of renamings is one entry (`firstName_follow_new`).
A field without an entry keeps its name.
-/

namespace SchemaLog

/-- Pairs of a name that a renaming gave and the name it goes back to, the latest first; a name is
given by at most one entry. -/
abbrev Origins := List (String × String)

namespace Origins

/-- The name that a name goes back to. -/
def firstName (o : Origins) (name : String) : String :=
  (o.lookup name).getD name

/-- The entries that give another name. -/
def forget (o : Origins) (name : String) : Origins :=
  o.filter fun e => e.1 != name

/-- One more renaming: the new name takes over what the old one goes back to. -/
def follow (o : Origins) (old new : String) : Origins :=
  (new, o.firstName old) :: (o.forget old).forget new

/-- The renamings among changes, followed in order. -/
def followAll (o : Origins) : List Change → Origins
  | [] => o
  | .rename old new :: rest => (o.follow old new).followAll rest
  | _ :: rest => o.followAll rest

/-- The name that a field of the older schema has now: the latest name that goes back to its own. -/
def currentName (o : Origins) (name : String) : String :=
  ((o.find? fun e => e.2 == name).map Prod.fst).getD name

@[simp] theorem firstName_follow_new (o : Origins) (old new : String) :
    (o.follow old new).firstName new = o.firstName old := by
  simp [firstName, follow]

@[simp] theorem currentName_nil (name : String) : currentName [] name = name := rfl

/-- Each name is given by at most one entry. -/
theorem nodup_follow {o : Origins} (h : (o.map Prod.fst).Nodup) (old new : String) :
    ((o.follow old new).map Prod.fst).Nodup := by
  have hsub : ((o.forget old).forget new).Sublist o :=
    List.filter_sublist.trans List.filter_sublist
  simp only [follow, List.map_cons, List.nodup_cons]
  refine ⟨?_, h.sublist (hsub.map Prod.fst)⟩
  simp only [forget, List.mem_map, List.mem_filter, bne_iff_ne, ne_eq, not_exists, not_and]
  rintro e ⟨_, hne⟩ rfl
  exact hne rfl

/-- **Each name is given by at most one entry**, however many renamings are followed. -/
theorem nodup_followAll :
    ∀ {o : Origins} (changes : List Change), (o.map Prod.fst).Nodup →
      ((o.followAll changes).map Prod.fst).Nodup
  | _, [], h => h
  | _, .rename old new :: rest, h => nodup_followAll rest (nodup_follow h old new)
  | _, .add _ :: rest, h => nodup_followAll rest h
  | _, .remove _ :: rest, h => nodup_followAll rest h
  | _, .retype _ _ _ :: rest, h => nodup_followAll rest h

end Origins

/-- The renamings of a document's fields that take effect after a version. -/
def History.originsSince (h : History) (document : String) (version : Version) : Origins :=
  Origins.followAll [] ((h.changesAfter document version).map Prod.snd)

end SchemaLog
