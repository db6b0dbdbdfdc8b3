import Mathlib.Data.List.Infix
import MetadataBlock.Host.World

/-!
# Places of files

A path that can be followed leads to the place that it spells, since there are no links.
The directories on the way exist, so a file that is written there changes nothing at any
other place.

- `eq_resolve_of_locate`: where a path leads;
- `isSome_entry?_iff`, `isSome_of_locate`: what exists above a place;
- `entry?_put`, `entry?_put_of_ne`: an entry that is put at a place;
- `FilledAt`, `filledAt_put`: the world with a file at the place of a path, place by place;
- `WriteEnd`, `writeEnd_write`, `filledAt_of_write`: how a write ends, with the world that
  it leaves;
- `FilledAt.read`: reading elsewhere after a write.
-/

namespace MetadataBlock

/-! ## Paths -/

/-- Carrying out a component leads to a place above, or one component further, so that it can
only go where something is known to exist. -/
theorem Path.step_false (done : List Text) (c : Text) :
    step false done c <+: done ∨ step false done c = done ++ [c] := by
  rw [step]
  split
  · exact .inl List.prefix_rfl
  · split
    · split
      · split
        · exact .inr rfl
        · exact .inl (List.dropLast_prefix done)
      · exact .inl List.nil_prefix
    · exact .inr rfl

namespace World

variable {w w' : World} {place q : List Text} {path text : Text}

/-- Following components that can be followed carries them out one by one. The other component
ends a walk with a fault. -/
theorem eq_walk_of_follow {cs : List Text} {start : List Text} (h : w.follow start cs = .ok place) :
    place = Path.walk false start cs := by
  induction cs generalizing start with
  | nil => exact (Except.ok.inj h).symm
  | cons c cs ih =>
    rw [follow] at h
    split at h
    · cases h
    · cases h
    · exact ih h

/-- A path leads to the place that it spells. -/
theorem eq_resolve_of_locate (h : w.locate path = .ok place) :
    place = Path.resolve w.directory path := by
  rw [locate] at h
  split at h
  · cases h
  · exact eq_walk_of_follow h

/-! ## What exists -/

/-- What is listed at a place comes before what the places below say. -/
theorem entry?_of_lookup {e : FileEntry} (h : w.entries.lookup place = some e) :
    w.entry? place = some e := by
  rw [World.entry?, h]

/-- A place that is not listed is a directory if something lies below it. -/
theorem entry?_of_lookup_none (h : w.entries.lookup place = none) :
    w.entry? place = if place <+: w.directory ∨ ∃ e ∈ w.entries, place <+: e.1 then
      some .directory else none := by
  rw [World.entry?, h]
  simp only [Bool.or_eq_true, List.any_eq_true, List.isPrefixOf_iff_prefix]

/-- There is something at a place if the present directory or an entry stands there or
below. -/
theorem isSome_entry?_iff : (w.entry? place).isSome = true
    ↔ place <+: w.directory ∨ ∃ e ∈ w.entries, place <+: e.1 := by
  cases hlookup : w.entries.lookup place with
  | some e =>
    obtain ⟨before, after, hentries, -⟩ := List.lookup_eq_some_iff.mp hlookup
    have hmem : (place, e) ∈ w.entries := by
      rw [hentries]
      exact List.mem_append_right before List.mem_cons_self
    rw [entry?_of_lookup hlookup]
    exact ⟨fun _ => .inr ⟨(place, e), hmem, List.prefix_rfl⟩, fun _ => rfl⟩
  | none =>
    rw [entry?_of_lookup_none hlookup]
    by_cases h : place <+: w.directory ∨ ∃ e ∈ w.entries, place <+: e.1
    · rw [if_pos h]
      exact ⟨fun _ => h, fun _ => rfl⟩
    · rw [if_neg h]
      exact ⟨fun hsome => (Bool.false_ne_true hsome).elim, fun hplace => absurd hplace h⟩

/-- What lies above an existing place exists. -/
theorem isSome_of_prefix (h : (w.entry? place).isSome = true) (hq : q <+: place) :
    (w.entry? q).isSome = true := by
  rw [isSome_entry?_iff] at h ⊢
  rcases h with hdirectory | ⟨e, he, hplace⟩
  · exact .inl (hq.trans hdirectory)
  · exact .inr ⟨e, he, hq.trans hplace⟩

/-- Everything above a place that components lead to exists, if this holds of the place from
which they are followed. Each component is followed from a directory, and directories exist. -/
theorem isSome_of_follow {cs : List Text} {start : List Text}
    (hstart : ∀ q, q <+: start → q ≠ start → (w.entry? q).isSome = true)
    (h : w.follow start cs = .ok place) :
    ∀ q, q <+: place → q ≠ place → (w.entry? q).isSome = true := by
  induction cs generalizing start with
  | nil =>
    obtain rfl := Except.ok.inj h
    exact hstart
  | cons c cs ih =>
    rw [follow] at h
    split at h
    · cases h
    · cases h
    · next hentry =>
      -- only a directory is left by its components, so the place itself exists
      have hself : (w.entry? start).isSome = true := by rw [hentry]; rfl
      refine ih ?_ h
      intro q hq hne
      refine isSome_of_prefix hself ?_
      rcases Path.step_false start c with habove | hbelow
      · exact hq.trans habove
      · rw [hbelow] at hq hne
        rcases List.prefix_concat_iff.mp hq with heq | hprefix
        · exact absurd heq hne
        · exact hprefix

/-- Everything above the place of a path that can be followed exists, wherever the path
starts. -/
theorem isSome_of_locate (h : w.locate path = .ok place) :
    ∀ q, q <+: place → q ≠ place → (w.entry? q).isSome = true := by
  rw [locate] at h
  split at h
  · cases h
  · refine isSome_of_follow ?_ h
    intro q hq _
    rw [isSome_entry?_iff]
    split at hq
    · exact .inl (hq.trans List.nil_prefix)
    · exact .inl hq

/-! ## Putting an entry -/

theorem lookup_filter_ne (hne : q ≠ place) (entries : List (List Text × FileEntry)) :
    (entries.filter fun old => old.1 != place).lookup q = entries.lookup q := by
  induction entries with
  | nil => rfl
  | cons e entries ih =>
    obtain ⟨other, e⟩ := e
    by_cases hother : other = place
    · have hdrop : (q == other) = false := by
        rw [hother]
        exact beq_false_of_ne hne
      rw [List.filter_cons_of_neg (by simp [hother]), ih, List.lookup_cons, hdrop]
    · rw [List.filter_cons_of_pos (by simp [hother]), List.lookup_cons, List.lookup_cons, ih]

/-- An entry stands where it was put. -/
theorem entry?_put (e : FileEntry) : World.entry? (w.put place e) place = some e := by
  refine entry?_of_lookup ?_
  rw [put, List.lookup_cons_self]

/-- Elsewhere an entry changes nothing, if what is above it exists already. The places above it
are the only ones that could come into being. -/
theorem entry?_put_of_ne (e : FileEntry) (hne : q ≠ place)
    (habove : q <+: place → (w.entry? q).isSome = true) :
    World.entry? (w.put place e) q = w.entry? q := by
  have hlookup : (w.put place e).entries.lookup q = w.entries.lookup q := by
    rw [put, List.lookup_cons, beq_false_of_ne hne]
    exact lookup_filter_ne hne w.entries
  cases hq : w.entries.lookup q with
  | some e => rw [entry?_of_lookup hq, entry?_of_lookup (hlookup.trans hq)]
  | none =>
    rw [entry?_of_lookup_none hq, entry?_of_lookup_none (hlookup.trans hq)]
    refine if_congr ?_ rfl rfl
    -- a place above the new entry was a directory before; all others see the old entries
    constructor
    · rintro (hdirectory | ⟨old, hold, hprefix⟩)
      · exact .inl hdirectory
      · rcases List.mem_cons.mp hold with rfl | hmem
        · exact isSome_entry?_iff.mp (habove hprefix)
        · exact .inr ⟨old, (List.mem_filter.mp hmem).1, hprefix⟩
    · rintro (hdirectory | ⟨old, hold, hprefix⟩)
      · exact .inl hdirectory
      · by_cases hplace : old.1 = place
        · rw [hplace] at hprefix
          exact .inr ⟨(place, e), List.mem_cons_self, hprefix⟩
        · have hkept : old ∈ w.entries.filter fun old => old.1 != place :=
            List.mem_filter.mpr ⟨hold, bne_iff_ne.mpr hplace⟩
          exact .inr ⟨old, List.mem_cons_of_mem _ hkept, hprefix⟩

/-! ## Writing -/

/-- The second world is the first one with a text in the file at a path: every other place
has what it had, and nothing was printed or passed on. -/
structure FilledAt (w : World) (path text : Text) (w' : World) : Prop where
  entry : w'.entry? (Path.resolve w.directory path) = some (.file text)
  others : ∀ q, q ≠ Path.resolve w.directory path → w'.entry? q = w.entry? q
  printed : w'.printed = w.printed
  warned : w'.warned = w.warned
  directory : w'.directory = w.directory
  readFault : w'.readFault = w.readFault
  /-- No directory is replaced. -/
  noDirectory : w.entry? (Path.resolve w.directory path) ≠ some .directory

/-- A file that is put where a path leads fills that place. What is above it exists, since
the path could be followed, so nothing else comes into being. -/
theorem filledAt_put (hlocate : w.locate path = .ok place)
    (hplace : w.entry? place ≠ some .directory) (text : Text) :
    w.FilledAt path text (w.put place (.file text)) := by
  obtain rfl := eq_resolve_of_locate hlocate
  refine ⟨entry?_put _, fun q hq => ?_, rfl, rfl, rfl, rfl, hplace⟩
  exact entry?_put_of_ne _ hq fun hprefix => isSome_of_locate hlocate q hprefix hq

/-- How writing a file ends. -/
inductive WriteEnd (w : World) (path content : Text) : Except FileFault Unit × World → Prop
  | done {w' : World} (filled : w.FilledAt path content w')
      (written : w'.written = w.written ++ [(path, content)]) : WriteEnd w path content (.ok (), w')
  /-- The file is not opened. -/
  | refused {f : FileFault} : WriteEnd w path content (.error f, w)
  /-- The file is opened, and something else than the content is left in it. -/
  | brokenOff {f : FileFault} {left : Text} {w' : World}
      (fault : w.writeFault (Path.resolve w.directory path) = some ⟨f, some left⟩)
      (filled : w.FilledAt path left w') (written : w'.written = w.written) :
      WriteEnd w path content (.error f, w')

theorem obstacle?_directory (path : Text) (h : w.entry? place = some .directory) :
    w.obstacle? path place = some { fault := .writeDirectory } := by
  rw [obstacle?, h]

/-- A fault that leaves something in the file is one of the place. The other obstacles are met
before the file is opened. -/
theorem writeFault_of_obstacle? {fault : WriteFault} (h : w.obstacle? path place = some fault)
    (hleft : fault.left.isSome = true) : w.writeFault place = some fault := by
  rw [obstacle?] at h
  split at h
  · cases h
    cases hleft
  · split at h
    · cases h
      cases hleft
    · exact h
  · split at h
    · cases h
      cases hleft
    · exact h

/-- Every write ends in one of the three ways. A path that cannot be followed and an obstacle
that leaves nothing are both a refusal. -/
theorem writeEnd_write (w : World) (path content : Text) :
    WriteEnd w path content (w.write path content) := by
  rw [write]
  cases hlocate : w.locate path with
  | error f => exact .refused
  | ok place =>
    simp only
    -- a directory is never opened, so it is a file or nothing that is filled
    cases hobstacle : w.obstacle? path place with
    | none =>
      have hfilled : w.FilledAt path content (w.put place (.file content)) := by
        refine filledAt_put hlocate (fun hdirectory => ?_) content
        rw [obstacle?_directory path hdirectory] at hobstacle
        cases hobstacle
      exact .done { hfilled with } rfl
    | some fault =>
      obtain ⟨f, left⟩ := fault
      cases left with
      | none => exact .refused
      | some left =>
        have hfilled : w.FilledAt path left (w.put place (.file left)) := by
          refine filledAt_put hlocate (fun hdirectory => ?_) left
          rw [obstacle?_directory path hdirectory] at hobstacle
          cases hobstacle
        have hfault := writeFault_of_obstacle? hobstacle rfl
        rw [eq_resolve_of_locate hlocate] at hfault
        exact .brokenOff hfault hfilled rfl

/-- A write that does not fail has filled its file, and is recorded. -/
theorem filledAt_of_write {content : Text} (h : w.write path content = (.ok (), w')) :
    w.FilledAt path content w' ∧ w'.written = w.written ++ [(path, content)] := by
  have hend := writeEnd_write w path content
  rw [h] at hend
  cases hend with
  | done filled written => exact ⟨filled, written⟩

/-- Directories that components lead through are still there when a file is filled, as the file
takes the place of no directory. -/
theorem FilledAt.follow (h : w.FilledAt path text w') {cs : List Text} {start : List Text}
    (hfollow : w.follow start cs = .ok place) : w'.follow start cs = .ok place := by
  induction cs generalizing start with
  | nil => exact hfollow
  | cons c cs ih =>
    rw [World.follow] at hfollow ⊢
    split at hfollow
    · cases hfollow
    · cases hfollow
    · next hdirectory =>
      -- no directory is replaced, so it is not the one that is left here
      have hne : start ≠ Path.resolve w.directory path := by
        rintro rfl
        exact h.noDirectory hdirectory
      rw [h.others start hne, hdirectory]
      exact ih hfollow

/-- Filling a file changes nothing for one that can be read at another place. The path still
leads to its place, and the entry there is the same. -/
theorem FilledAt.read (h : w.FilledAt path text w') {file source : Text}
    (hne : Path.resolve w.directory path ≠ Path.resolve w.directory file)
    (hread : w.read file = .ok source) : w'.read file = .ok source := by
  rw [World.read] at hread ⊢
  cases hlocate : w.locate file with
  | error f =>
    rw [hlocate] at hread
    cases hread
  | ok place =>
    rw [hlocate] at hread
    have hplace : place ≠ Path.resolve w.directory path := by
      rw [eq_resolve_of_locate hlocate]
      exact hne.symm
    -- the path is followed through directories only, and none of them has changed
    have hlocate' : w'.locate file = .ok place := by
      rw [locate, h.directory]
      rw [locate] at hlocate
      split at hlocate
      · cases hlocate
      · next hempty =>
        rw [if_neg hempty]
        exact h.follow hlocate
    rw [hlocate']
    simp only [bind, Except.bind] at hread ⊢
    rw [h.others place hplace, h.readFault]
    exact hread

end World

end MetadataBlock
