import Jarsmith.Proofs.Outcome
import Jarsmith.Proofs.Text.Split
import Jarsmith.Store.Basic
import Jarsmith.Store.Path

/-!
# Paths and the places of the store

The names that a path is made of, the place that it leads to, and what the operations of the store do
there. A path leads to the same place for as long as the directories stay, whatever happens to files.

* `Path.names_slash` — the names of a path that goes on behind a slash.
* `Path.names_withFileName` — another last name leaves the other names as they are.
* `Path.getLast?_names` — the last name of a path that does not end in dots.
* `SameDirectories` — two stores have the same directories; `follow_eq_ok` and `locate_eq_ok` carry
  a path from one to the other.
* `SameFiles` — two stores have the same files; `sameFiles_makeAlong` says so of a store with more
  directories.
* `put_eq_ok`, `remove_eq_ok`, `move_eq_ok` — what an operation that succeeds leaves.
* `exists_put`, `exists_move_of_put` — which operations succeed.
-/

namespace Jarsmith

namespace Path

open Text

/-- What counts as a name between slashes. -/
def IsName (name : String) : Prop := name ≠ "" ∧ name ≠ "." ∧ '/' ∉ name.toList

theorem isName_of_mem {path name : String} (hName : name ∈ names path) : IsName name := by
  obtain ⟨hPiece, hCounts⟩ := List.mem_filter.1 hName
  simp only [Bool.and_eq_true, bne_iff_ne] at hCounts
  exact ⟨hCounts.1, hCounts.2, not_mem_of_mem_split hPiece⟩

theorem names_of_isName {name : String} (hName : IsName name) : names name = [name] := by
  obtain ⟨hSome, hDot, hSlash⟩ := hName
  rw [names, split, pieces_of_not_mem hSlash, List.map_singleton, String.ofList_toList]
  simp [hSome, hDot]

/-- The names on both sides of a slash. -/
theorem names_slash (front back : String) :
    names (front ++ "/" ++ back) = names front ++ names back := by
  have hChars : (front ++ "/" ++ back).toList = front.toList ++ '/' :: back.toList := by
    simp
  rw [names, split, hChars, pieces_append, List.map_append, List.filter_append]
  rfl

theorem names_intercalate {l : List String} (hNames : ∀ name ∈ l, IsName name) :
    names ("/".intercalate l) = l := by
  induction l with
  | nil => rfl
  | cons name more ih =>
    obtain ⟨hName, hMore⟩ := List.forall_mem_cons.1 hNames
    cases more with
    | nil =>
      rw [String.intercalate_singleton]
      exact names_of_isName hName
    | cons next more =>
      rw [String.intercalate_cons_cons, names_slash, names_of_isName hName, ih hMore,
        List.singleton_append]

theorem names_empty : names "" = [] := rfl

theorem names_absolute (path : String) : names ("/" ++ path) = names path := by
  have hSlash := names_slash "" path
  rwa [String.empty_append, names_empty, List.nil_append] at hSlash

/-- A path that ends in a slash is some path with a slash behind it. -/
theorem exists_of_endsWith {path : String} (hSlash : Text.endsWith path "/" = true) :
    ∃ front, path = front ++ "/" := by
  rw [Text.endsWith, stripSuffix?, Option.isSome_map, Option.isSome_iff_exists] at hSlash
  obtain ⟨front, hFront⟩ := hSlash
  refine ⟨String.ofList front, String.toList_inj.1 ?_⟩
  rw [String.toList_append, String.toList_ofList]
  exact beforeSuffix?_eq_some.1 hFront

theorem isAbsolute_of_isName {name : String} (hName : IsName name) : isAbsolute name = false :=
  Text.startsWith_eq_false (c := '/') (by decide) hName.2.2

/-- A name behind a directory. -/
theorem names_join {directory name : String} (hName : IsName name) :
    names (join directory name) = names directory ++ [name] := by
  rw [join, isAbsolute_of_isName hName, Bool.false_or]
  split
  · rename_i hEmpty
    rw [String.isEmpty_iff.1 hEmpty, names_empty, names_of_isName hName, List.nil_append]
  · split
    · rename_i hSlash
      obtain ⟨front, rfl⟩ := exists_of_endsWith hSlash
      have hFront : names (front ++ "/") = names front := by
        have hSlash := names_slash front ""
        rwa [String.append_empty, names_empty, List.append_nil] at hSlash
      rw [names_slash, hFront, names_of_isName hName]
    · rw [names_slash, names_of_isName hName]

theorem exists_join (directory name : String) : ∃ front, join directory name = front ++ name := by
  unfold join
  split
  · exact ⟨"", String.empty_append.symm⟩
  · split
    · exact ⟨directory, rfl⟩
    · exact ⟨directory ++ "/", rfl⟩

/-- The path ends in its new last name. -/
theorem exists_withFileName (path name : String) :
    ∃ front, withFileName path name = front ++ name := by
  unfold withFileName
  split
  · exact exists_join _ name
  · exact ⟨"", String.empty_append.symm⟩

/-- Another last name leaves the other names as they are. -/
theorem names_withFileName {path name : String} (hName : IsName name) :
    names (withFileName path name) = (names path).dropLast ++ [name] := by
  have hFront : names ("/".intercalate (names path).dropLast) = (names path).dropLast :=
    names_intercalate fun name hMem => isName_of_mem ((List.dropLast_sublist _).mem hMem)
  unfold withFileName parent?
  dsimp only
  cases hAll : (names path).isEmpty with
  | true =>
    rw [List.isEmpty_iff.1 hAll]
    exact names_of_isName hName
  | false =>
    show names (join (_ ++ "/".intercalate (names path).dropLast) name) = _
    rw [names_join hName]
    split
    · rw [names_absolute, hFront]
    · rw [String.empty_append, hFront]

/-- The last name of a path that does not end in dots. -/
theorem getLast?_names {path : String} (hDots : endsInDots path = false) :
    ∃ name, (names path).getLast? = some name ∧ name ≠ ".." := by
  unfold endsInDots at hDots
  split at hDots
  · rename_i name hLast
    rw [Bool.or_eq_false_iff, beq_eq_false_iff_ne, beq_eq_false_iff_ne] at hDots
    obtain ⟨front, hFront⟩ := List.getLast?_eq_some_iff.1 hLast
    refine ⟨name, ?_, hDots.2⟩
    have hNames : names path =
        ((split '/' path).filter (· != "")).filter (· != ".") := by
      rw [names, List.filter_filter]
      exact List.filter_congr fun name _ => Bool.and_comm _ _
    rw [hNames, hFront, List.filter_append]
    simp [hDots.1]
  · cases hDots

end Path

end Jarsmith

-- ---------------------------------------------------------------------------
-- Places
-- ---------------------------------------------------------------------------

namespace Jarsmith.Store

open Outcome

variable {s t u : Store} {place p : List String} {names : List String} {path name : String}
  {content : Content} {node : Node}

/-- What the file at a place holds, if there is one. -/
def fileAt? (s : Store) (place : List String) : Option Content :=
  match s.node? place with
  | some (.file content) => some content
  | _ => none

theorem fileAt?_eq_some :
    s.fileAt? place = some content ↔ s.node? place = some (.file content) := by
  unfold fileAt?
  split
  · rename_i found hFound
    rw [hFound]
    simp
  · rename_i hNone
    exact iff_of_false nofun (hNone content)

/-- Every file of one store is there in the other, with the same content. -/
def SameFiles (s t : Store) : Prop := ∀ place, t.fileAt? place = s.fileAt? place

theorem fileAt?_of_node? (h : t.node? place = s.node? place) :
    t.fileAt? place = s.fileAt? place := by
  rw [fileAt?, h, fileAt?]

-- ---------------------------------------------------------------------------
-- Following a path
-- ---------------------------------------------------------------------------

/-- The place that one name leads to. -/
def next (place : List String) (name : String) : List String :=
  if name = ".." then place.dropLast else place ++ [name]

/-- One name leads on if it is short enough; it may be the last one or lead to a directory. -/
theorem follow_cons_eq_ok : s.follow place (name :: names) = .ok p ↔
    name.utf8ByteSize ≤ maxName ∧ (names = [] ∧ next place name = p ∨ names ≠ [] ∧
      s.node? (next place name) = some .directory ∧ s.follow (next place name) names = .ok p) := by
  rw [follow]
  split
  · rename_i hLong
    exact iff_of_false nofun fun h => absurd h.1 (Nat.not_le.2 hLong)
  · rename_i hShort
    rw [and_iff_right (Nat.not_lt.1 hShort)]
    extract_lets target
    have hTarget : target = next place name := rfl
    rw [hTarget]
    cases names with
    | nil => simp
    | cons first more =>
      cases s.node? (next place name) with
      | none => simp
      | some node => cases node <;> simp

/-- Following a path looks at directories only. -/
theorem follow_mono (h : ∀ p, s.node? p = some .directory → t.node? p = some .directory)
    (hFollow : s.follow place names = .ok p) : t.follow place names = .ok p := by
  induction names generalizing place with
  | nil => exact hFollow
  | cons name more ih =>
    obtain ⟨hShort, hLast | ⟨hMore, hDirectory, hRest⟩⟩ := follow_cons_eq_ok.1 hFollow
    · exact follow_cons_eq_ok.2 ⟨hShort, .inl hLast⟩
    · exact follow_cons_eq_ok.2 ⟨hShort, .inr ⟨hMore, h _ hDirectory, ih hRest⟩⟩

/-- A last name that does not lead upwards is the last name of the place. -/
theorem follow_concat (hName : name ≠ "..") (hFollow : s.follow place (names ++ [name]) = .ok p) :
    ∃ directory, p = directory ++ [name] := by
  induction names generalizing place with
  | nil =>
    obtain ⟨-, ⟨-, rfl⟩ | ⟨hMore, -⟩⟩ := follow_cons_eq_ok.1 hFollow
    · exact ⟨place, if_neg hName⟩
    · exact absurd rfl hMore
  | cons first more ih =>
    obtain ⟨-, ⟨hNone, -⟩ | ⟨-, -, hRest⟩⟩ := follow_cons_eq_ok.1 hFollow
    · exact absurd hNone (by simp)
    · exact ih hRest

/-- Two stores have the same directories. -/
def SameDirectories (s t : Store) : Prop :=
  ∀ p, t.node? p = some .directory ↔ s.node? p = some .directory

theorem SameDirectories.follow_eq_ok (h : SameDirectories s t) :
    t.follow place names = .ok p ↔ s.follow place names = .ok p :=
  ⟨follow_mono fun p => (h p).1, follow_mono fun p => (h p).2⟩

/-- A path names the place that its names lead to. If a file stands there, the path must not end in
a slash. -/
theorem locate_eq_ok : s.locate path = .ok p ↔ s.follow [] (Path.names path) = .ok p ∧
    (Path.isDirectoryPath path = true → s.fileAt? p = none) := by
  unfold locate fileAt?
  rw [bind_ok_iff]
  constructor
  · rintro ⟨place, hFollow, h⟩
    split at h
    · rename_i content hNode
      split at h
      · exact absurd h (by simp)
      · rename_i hSlash
        obtain rfl := pure_ok_iff.1 h
        exact ⟨hFollow, fun h => absurd h hSlash⟩
    · rename_i hNone
      obtain rfl := pure_ok_iff.1 h
      refine ⟨hFollow, fun _ => ?_⟩
      split
      · rename_i content hNode
        exact absurd hNode (hNone content)
      · rfl
  · rintro ⟨hFollow, hFile⟩
    refine ⟨p, hFollow, ?_⟩
    split
    · rename_i content hNode
      rw [hNode] at hFile
      have hSlash : ¬ Path.isDirectoryPath path = true := by simpa using hFile
      rw [if_neg hSlash]
      rfl
    · rfl

/-- A path that does not end in a slash names the place that its names lead to. -/
theorem locate_of_follow (hSlash : Path.isDirectoryPath path = false)
    (hFollow : s.follow [] (Path.names path) = .ok p) : s.locate path = .ok p :=
  locate_eq_ok.2 ⟨hFollow, fun h => by simp [hSlash] at h⟩

theorem isThere_eq_false : s.isThere path = false ↔
    ∀ p, s.locate path = .ok p → s.node? p = none := by
  unfold isThere at?
  cases s.locate path with
  | error fault => exact iff_of_true rfl nofun
  | ok a => simp

-- ---------------------------------------------------------------------------
-- The counter
-- ---------------------------------------------------------------------------

/-- The next number for a temporary name has nothing to do with what stands where. -/
theorem node?_counter {n : Nat} : ({ s with counter := n } : Store).node? p = s.node? p := by
  cases p <;> rfl

theorem locate_counter {n : Nat} :
    ({ s with counter := n } : Store).locate path = .ok p ↔ s.locate path = .ok p := by
  have hDirectories : SameDirectories s { s with counter := n } := fun p => by rw [node?_counter]
  rw [locate_eq_ok, locate_eq_ok, hDirectories.follow_eq_ok, fileAt?_of_node? node?_counter]

-- ---------------------------------------------------------------------------
-- Single operations
-- ---------------------------------------------------------------------------

/-- What stands at a place that is no directory was put there. -/
theorem node?_of_ne_nil (hPlace : place ≠ []) : s.node? place = s.nodes.get? place := by
  cases place with
  | nil => exact absurd rfl hPlace
  | cons name more => rfl

theorem ne_nil_of_node? (hNode : s.node? place ≠ some .directory) : place ≠ [] := by
  rintro rfl
  exact hNode rfl

theorem node?_insert {k : List String} (hPlace : k ≠ []) :
    ({ s with nodes := s.nodes.insert k node } : Store).node? p =
      if k = p then some node else s.node? p := by
  cases p with
  | nil => rw [if_neg hPlace]; rfl
  | cons name more => exact OrderedMap.get?_insert s.nodes _ k node

theorem node?_erase {k : List String} (hPlace : k ≠ []) :
    ({ s with nodes := s.nodes.erase k } : Store).node? p = if k = p then none else s.node? p := by
  cases p with
  | nil => rw [if_neg hPlace]; rfl
  | cons name more => exact OrderedMap.get?_erase s.nodes _ k

theorem content_eq_ok : s.content path = .ok content ↔
    ∃ place, s.locate path = .ok place ∧ s.node? place = some (.file content) := by
  unfold Store.content
  rw [bind_ok_iff]
  refine exists_congr fun place => and_congr_right fun _ => ?_
  cases s.node? place with
  | none => simp
  | some node => cases node <;> simp

theorem put_eq_ok (h : s.put path content = .ok t) : Path.isDirectoryPath path = false ∧
    ∃ place, s.locate path = .ok place ∧ s.node? place ≠ some .directory ∧
      t = s.setFile place content := by
  obtain ⟨place, hLocate, h⟩ := bind_ok_iff.1 h
  split at h
  · exact absurd h (by simp)
  · rename_i hNode
    by_cases hSlash : Path.isDirectoryPath path = true
    · rw [if_pos hSlash] at h
      cases h
    · refine ⟨Bool.eq_false_iff.2 hSlash, place, hLocate, by rw [hNode]; nofun, ?_⟩
      rw [if_neg hSlash] at h
      by_cases hAbove : s.node? place.dropLast = some .directory
      · simp only [hAbove] at h
        exact (pure_ok_iff.1 h).symm
      · rw [if_pos hAbove] at h
        cases h
  · rename_i found hNode
    have hFile := (locate_eq_ok.1 hLocate).2
    rw [fileAt?_eq_some.2 hNode] at hFile
    have hNoSlash : ¬ Path.isDirectoryPath path = true := fun hSlash => nomatch hFile hSlash
    exact ⟨Bool.eq_false_iff.2 hNoSlash, place, hLocate, by rw [hNode]; nofun,
      (pure_ok_iff.1 h).symm⟩

theorem remove_eq_ok (h : s.remove path = .ok t) : ∃ place content, s.locate path = .ok place ∧
    s.node? place = some (.file content) ∧ t = { s with nodes := s.nodes.erase place } := by
  obtain ⟨place, hLocate, h⟩ := bind_ok_iff.1 h
  split at h
  · rename_i content hNode
    exact ⟨place, content, hLocate, hNode, (pure_ok_iff.1 h).symm⟩
  · exact absurd h (by simp)
  · exact absurd h (by simp)

/-- A file that can be found can be removed. -/
theorem exists_remove (hLocate : s.locate path = .ok place)
    (hNode : s.node? place = some (.file content)) :
    s.remove path = .ok { s with nodes := s.nodes.erase place } := by
  refine bind_ok_iff.2 ⟨place, hLocate, ?_⟩
  rw [hNode]
  rfl

/-- Making directories leaves every file as it is. -/
theorem sameFiles_makeAlong (h : s.makeAlong place names = .ok t) : SameFiles s t := by
  induction names generalizing s place with
  | nil =>
    obtain rfl := Except.ok.inj h
    exact fun _ => rfl
  | cons name more ih =>
    rw [makeAlong] at h
    split at h
    · cases h
    · extract_lets target at h
      split at h
      · exact ih h
      · cases h
      · rename_i hNone
        have hTarget : target ≠ [] := ne_nil_of_node? (by rw [hNone]; nofun)
        refine fun p => (ih h p).trans ?_
        by_cases hp : target = p
        · subst hp
          rw [fileAt?, node?_insert hTarget, if_pos rfl, fileAt?, hNone]
        · exact fileAt?_of_node? (by rw [node?_insert hTarget, if_neg hp])

/-- And every directory. -/
theorem directories_makeAlong (h : s.makeAlong place names = .ok t) :
    ∀ p, s.node? p = some .directory → t.node? p = some .directory := by
  induction names generalizing s place with
  | nil =>
    obtain rfl := Except.ok.inj h
    exact fun _ h => h
  | cons name more ih =>
    rw [makeAlong] at h
    split at h
    · cases h
    · extract_lets target at h
      split at h
      · exact ih h
      · cases h
      · rename_i hNone
        have hTarget : target ≠ [] := ne_nil_of_node? (by rw [hNone]; nofun)
        exact fun p hp => ih h p (by rw [node?_insert hTarget, hp, ite_self])

/-- From `s` to `t` the file at place `a` moved to place `b`. -/
structure Moved (s t : Store) (a b : List String) (content : Content) : Prop where
  before : s.node? a = some (.file content)
  gone : t.node? a = none
  after : t.node? b = some (.file content)
  elsewhere : ∀ p, p ≠ a → p ≠ b → t.node? p = s.node? p
  directories : SameDirectories s t
  counter : t.counter = s.counter

theorem moved {a b : List String} (hNode : s.node? a = some (.file content))
    (hFree : s.node? b ≠ some .directory) (hNe : a ≠ b) :
    Moved s { s with nodes := (s.nodes.erase a).insert b (.file content) } a b content := by
  have hRoot : a ≠ [] := ne_nil_of_node? (by rw [hNode]; nofun)
  have hAfter : ∀ p, ({ s with nodes := (s.nodes.erase a).insert b (.file content) } :
      Store).node? p = if b = p then some (.file content) else if a = p then none
        else s.node? p := fun p => by
    rw [← node?_erase hRoot]
    exact node?_insert (s := { s with nodes := s.nodes.erase a }) (ne_nil_of_node? hFree)
  refine ⟨hNode, ?_, ?_, fun p ha hb => ?_, fun p => ?_, rfl⟩
  · rw [hAfter, if_neg hNe.symm, if_pos rfl]
  · rw [hAfter, if_pos rfl]
  · rw [hAfter, if_neg hb.symm, if_neg ha.symm]
  · rw [hAfter]
    split
    · rename_i hp
      subst hp
      exact iff_of_false nofun hFree
    · split
      · rename_i hp
        subst hp
        rw [hNode]
        exact iff_of_false nofun nofun
      · rfl

/-- What moving leaves, when no directory stands at the source. The path to which it moves ends in a
name of its own. -/
theorem move_eq_ok {source target : String} (h : s.move source target = .ok t)
    (hSource : ∀ a, s.locate source = .ok a → s.node? a ≠ some .directory) :
    Path.endsInDots target = false ∧ Path.isDirectoryPath target = false ∧
      ∃ a b content, s.locate source = .ok a ∧ s.node? a = some (.file content) ∧
        s.locate target = .ok b ∧ (a = b ∧ t = s ∨ Moved s t a b content) := by
  obtain ⟨_, -, h⟩ := bind_ok_iff.1 h
  obtain ⟨_, -, h⟩ := bind_ok_iff.1 h
  split at h
  · cases h
  rename_i hDots
  obtain ⟨a, hLocate, h⟩ := bind_ok_iff.1 h
  cases hNode : s.node? a with
  | none =>
    rw [hNode] at h
    cases h
  | some node =>
    cases node with
    | directory => exact absurd hNode (hSource a hLocate)
    | file content =>
      simp only [hNode] at h
      split at h
      · cases h
      rename_i hSlash
      obtain ⟨b, hTarget, h⟩ := bind_ok_iff.1 h
      have hNoDots : ¬ Path.endsInDots target = true := fun hEnds => hDots (.inr hEnds)
      have hNoSlash : ¬ Path.isDirectoryPath target = true := fun hEnds => hSlash ⟨nofun, hEnds⟩
      refine ⟨Bool.eq_false_iff.2 hNoDots, Bool.eq_false_iff.2 hNoSlash, a, b, content, hLocate,
        hNode, hTarget, ?_⟩
      split at h
      · rename_i hSame
        exact .inl ⟨hSame, (pure_ok_iff.1 h).symm⟩
      · rename_i hNe
        rw [if_neg fun hDirectory => nomatch hDirectory.1] at h
        refine .inr ?_
        unfold moveNode at h
        split at h
        · cases h
        · rename_i found hFile hNotDirectory
          cases hFile
          obtain rfl := Except.ok.inj h
          exact moved hNode hNotDirectory hNe
        all_goals rename_i hDirectory _; cases hDirectory

/-- What leads to a place leads to a directory before, and from there along the last name. -/
theorem follow_front (hPlace : s.node? place = some .directory)
    (hFollow : s.follow place (names ++ [name]) = .ok p) :
    ∃ above, s.follow place names = .ok above ∧ s.node? above = some .directory ∧
      p = next above name := by
  induction names generalizing place with
  | nil =>
    obtain ⟨-, ⟨-, hNext⟩ | ⟨hNone, -⟩⟩ := follow_cons_eq_ok.1 hFollow
    · exact ⟨place, rfl, hPlace, hNext.symm⟩
    · exact absurd rfl hNone
  | cons first more ih =>
    obtain ⟨hShort, ⟨hNone, -⟩ | ⟨-, hDirectory, hRest⟩⟩ := follow_cons_eq_ok.1 hFollow
    · exact absurd hNone (by simp)
    · obtain ⟨above, hMore, hAbove⟩ := ih hDirectory hRest
      refine ⟨above, follow_cons_eq_ok.2 ⟨hShort, ?_⟩, hAbove⟩
      cases more with
      | nil => exact .inl ⟨rfl, Except.ok.inj hMore⟩
      | cons second rest => exact .inr ⟨List.cons_ne_nil _ _, hDirectory, hMore⟩

/-- What is no directory stands in one. -/
theorem exists_directoryAbove (hLocate : s.locate path = .ok place)
    (hFree : s.node? place ≠ some .directory) : ∃ above, s.directoryAbove path = .ok above := by
  have hFollow := (locate_eq_ok.1 hLocate).1
  obtain hNone | ⟨front, name, hNames⟩ := List.eq_nil_or_concat (Path.names path)
  · rw [hNone] at hFollow
    cases hFollow
    exact absurd rfl hFree
  · rw [List.concat_eq_append] at hNames
    rw [hNames] at hFollow
    obtain ⟨above, hAbove, hDirectory, -⟩ := follow_front rfl hFollow
    refine ⟨above, bind_ok_iff.2 ⟨above, ?_, ?_⟩⟩
    · rwa [hNames, List.dropLast_concat]
    · rw [hDirectory]
      rfl

theorem SameDirectories.directoryAbove (h : SameDirectories s t)
    (hAbove : s.directoryAbove path = .ok place) : t.directoryAbove path = .ok place := by
  obtain ⟨p, hFollow, hPlace⟩ := bind_ok_iff.1 hAbove
  refine bind_ok_iff.2 ⟨p, h.follow_eq_ok.2 hFollow, ?_⟩
  split at hPlace
  · rename_i hDirectory
    rw [(h p).2 hDirectory]
    exact hPlace
  · cases hPlace
  · cases hPlace

/-- A file can be moved to a place at which no directory stands. -/
theorem exists_move_to {source target : String} {above b : List String}
    (hSource : s.content source = .ok content) (hAbove : s.directoryAbove target = .ok above)
    (hTo : s.locate target = .ok b) (hFree : s.node? b ≠ some .directory)
    (hSlash : Path.isDirectoryPath target = false)
    (hDots : ¬ (Path.endsInDots source = true ∨ Path.endsInDots target = true)) :
    ∃ t, s.move source target = .ok t := by
  obtain ⟨a, hFrom, hNode⟩ := content_eq_ok.1 hSource
  obtain ⟨around, hAround⟩ := exists_directoryAbove hFrom (by rw [hNode]; nofun)
  have hMoveNode : ∃ t, s.moveNode (.file content) a b = .ok t := by
    unfold moveNode
    split
    · rename_i hDirectory
      exact absurd hDirectory hFree
    · exact ⟨_, rfl⟩
    all_goals rename_i hFile _; cases hFile
  obtain ⟨t, hMove⟩ := hMoveNode
  refine ⟨if a = b then s else t,
    bind_ok_iff.2 ⟨around, hAround, bind_ok_iff.2 ⟨above, hAbove, ?_⟩⟩⟩
  rw [if_neg hDots]
  refine bind_ok_iff.2 ⟨a, hFrom, ?_⟩
  simp only [hNode]
  rw [if_neg fun h => by simp [hSlash] at h]
  refine bind_ok_iff.2 ⟨b, hTo, ?_⟩
  split
  · rfl
  · rw [if_neg fun h => nomatch h.1]
    exact hMove

/-- A file can be moved to where it can be copied. -/
theorem exists_move_of_put {source target : String} {copied : Content}
    (hSource : s.content source = .ok content) (hPut : s.put target copied = .ok t)
    (hDots : ¬ (Path.endsInDots source = true ∨ Path.endsInDots target = true)) :
    ∃ u, s.move source target = .ok u := by
  obtain ⟨hSlash, b, hTo, hFree, -⟩ := put_eq_ok hPut
  obtain ⟨above, hAbove⟩ := exists_directoryAbove hTo hFree
  exact exists_move_to hSource hAbove hTo hFree hSlash hDots

/-- A file can be written at a place at which no directory stands. -/
theorem exists_put (content : Content) (hLocate : s.locate path = .ok place)
    (hFree : s.node? place ≠ some .directory) (hSlash : Path.isDirectoryPath path = false)
    (hDots : Path.endsInDots path = false) :
    s.put path content = .ok (s.setFile place content) := by
  have hAbove : s.node? place.dropLast = some .directory := by
    obtain ⟨name, hLast, hName⟩ := Path.getLast?_names hDots
    obtain ⟨front, hFront⟩ := List.getLast?_eq_some_iff.1 hLast
    have hFollow := (locate_eq_ok.1 hLocate).1
    rw [hFront] at hFollow
    obtain ⟨above, -, hDirectory, rfl⟩ := follow_front rfl hFollow
    rwa [next, if_neg hName, List.dropLast_concat]
  refine bind_ok_iff.2 ⟨place, hLocate, ?_⟩
  cases hNode : s.node? place with
  | none =>
    dsimp only
    rw [hSlash, hAbove]
    rfl
  | some node =>
    cases node with
    | directory => exact absurd hNode hFree
    | file old => rfl

/-- Where a file could be written, it can be written in every store with the same directories. -/
theorem exists_put_of_put (other : Content) (h : SameDirectories s t)
    (hPut : s.put path content = .ok u) (hDots : Path.endsInDots path = false) :
    ∃ v, t.put path other = .ok v := by
  obtain ⟨hSlash, place, hLocate, hFree, -⟩ := put_eq_ok hPut
  exact ⟨_, exists_put other
    (locate_of_follow hSlash (h.follow_eq_ok.2 (locate_eq_ok.1 hLocate).1))
    (fun hDirectory => hFree ((h place).1 hDirectory)) hSlash hDots⟩

/-- Where a file could be moved, it can be moved in every store with the same directories. -/
theorem exists_move_of_move {source target : String} {old : Content} (h : SameDirectories s t)
    (hMove : s.move source target = .ok u) (hOld : s.content source = .ok old)
    (hContent : t.content source = .ok content) : ∃ v, t.move source target = .ok v := by
  have hSource : ∀ p, s.locate source = .ok p → s.node? p ≠ some .directory := by
    intro p hp hDirectory
    obtain ⟨p', hp', hFile⟩ := content_eq_ok.1 hOld
    obtain rfl := Except.ok.inj (hp.symm.trans hp')
    cases hDirectory.symm.trans hFile
  obtain ⟨-, hSlash, a, b, _, -, hNode, hTarget, hMoved⟩ := move_eq_ok hMove hSource
  have hFree : s.node? b ≠ some .directory := by
    intro hDirectory
    obtain ⟨rfl, -⟩ | hMoved := hMoved
    · cases hNode.symm.trans hDirectory
    · cases hMoved.after.symm.trans ((hMoved.directories b).2 hDirectory)
  obtain ⟨_, -, hMove⟩ := bind_ok_iff.1 hMove
  obtain ⟨above, hAbove, hMove⟩ := bind_ok_iff.1 hMove
  split at hMove
  · cases hMove
  · rename_i hDots
    exact exists_move_to hContent (h.directoryAbove hAbove)
      (locate_of_follow hSlash (h.follow_eq_ok.2 (locate_eq_ok.1 hTarget).1))
      (fun hDirectory => hFree ((h b).1 hDirectory)) hSlash hDots

end Jarsmith.Store
