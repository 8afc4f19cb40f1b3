/-
Mos6502/Proofs/Replacement.lean

Replacing a file as a whole, on every tree and every system.  A temporary file
has a name that nothing in the tree has (`createTemporaryOn_eq_ok`), so to
write to it and remove it again gives back the tree itself, not only one with
the same files (`erase_set_of_none`).  Where a path leads depends on
directories alone (`locate_set`), so the temporary file is never in the way of
the rename.  And it never has the name that the path ends with, which is
shorter (`locate_ne_temporary`): the removal at the end does not hit the new
file.

* `replaceOn_cases` — a replacement that fails leaves the tree as it was, and
  one that goes well sets one file and nothing else;
* `replace_eq_error`, `replace_eq_ok_iff` — the two cases on a reliable system;
* `replaceOn_whole_or_nothing` — both cases, file by file.
-/
import Mathlib.Data.List.TakeWhile
import Mos6502.Files.Replace
import Mos6502.Proofs.Fallible

namespace Mos6502

/-! ### Names at the end of paths -/

namespace Path

theorem parts_append_slash (s t : Bytes) : parts (s ++ slash :: t) = parts s ++ parts t := by
  rw [parts, List.splitOnP_append_cons, List.filter_append]
  · rfl
  · rfl

theorem parts_of_not_mem {s : Bytes} (hs : slash ∉ s) (hne : s ≠ []) : parts s = [s] := by
  have hsingle : s.splitOnP (· == slash) = [s] := by
    apply List.splitOnP_eq_singleton
    intro b hb
    exact beq_false_of_ne (ne_of_mem_of_not_mem hb hs)
  rw [parts, hsingle, List.filter_cons_of_pos (by simpa using hne)]
  rfl

theorem parts_of_forall_slash {s : Bytes} (hs : ∀ b ∈ s, b = slash) : parts s = [] := by
  induction s with
  | nil => rfl
  | cons b rest ih =>
    rw [hs b List.mem_cons_self]
    exact (parts_append_slash [] rest).trans (ih fun c hc => hs c (List.mem_cons_of_mem b hc))

/-- The last part of a path, which may have slashes behind it. -/
theorem getLast?_parts {front name slashes : Bytes}
    (hfront : front = [] ∨ ∃ f, front = f ++ [slash]) (hname : slash ∉ name)
    (hne : name ≠ []) (hslashes : ∀ b ∈ slashes, b = slash) :
    (parts (front ++ (name ++ slashes))).getLast? = some name := by
  have hback : parts (name ++ slashes) = [name] := by
    cases slashes with
    | nil => rw [List.append_nil, parts_of_not_mem hname hne]
    | cons b rest =>
      rw [hslashes b List.mem_cons_self, parts_append_slash, parts_of_not_mem hname hne,
        parts_of_forall_slash fun c hc => hslashes c (List.mem_cons_of_mem b hc)]
      rfl
  rcases hfront with rfl | ⟨f, rfl⟩
  · rw [List.nil_append, hback]
    rfl
  · rw [List.append_assoc, List.singleton_append, parts_append_slash, hback, List.getLast?_append]
    rfl

/-- What is left by `dropWhile` starts with a byte that is not dropped. -/
theorem not_of_dropWhile_eq_cons {p : UInt8 → Bool} {s rest : Bytes} {b : UInt8}
    (h : s.dropWhile p = b :: rest) : p b = false := by
  have hhead := List.head?_dropWhile_not p s
  rwa [h] at hhead

/-- A path is slashes, or a name with a directory in front and slashes behind
it. -/
theorem eq_slashes_or_base (path : Bytes) : (∀ b ∈ path, b = slash) ∨
    ∃ front slashes, path = front ++ (base path ++ slashes) ∧
      (front = [] ∨ ∃ f, front = f ++ [slash]) ∧ slash ∉ base path ∧ base path ≠ [] ∧
      ∀ b ∈ slashes, b = slash := by
  rcases htrimmed : path.reverse.dropWhile (· == slash) with - | ⟨b, rest⟩
  · refine .inl fun b hb => ?_
    have hall := List.dropWhile_eq_nil_iff.mp htrimmed b (List.mem_reverse.mpr hb)
    simpa using hall
  · right
    have hb := not_of_dropWhile_eq_cons htrimmed
    have hbase : base path = ((b :: rest).takeWhile (· != slash)).reverse := by
      rw [base, htrimmed, if_neg, if_neg]
      · simp
      · rintro hempty
        rw [List.isEmpty_iff.mp hempty] at htrimmed
        cases htrimmed
    -- seen from the end: slashes, the name up to the next slash, and what is in front
    have hspan : path.reverse = path.reverse.takeWhile (· == slash) ++
        ((b :: rest).takeWhile (· != slash) ++ (b :: rest).dropWhile (· != slash)) := by
      rw [List.takeWhile_append_dropWhile, ← htrimmed, List.takeWhile_append_dropWhile]
    refine ⟨((b :: rest).dropWhile (· != slash)).reverse,
      (path.reverse.takeWhile (· == slash)).reverse, ?_, ?_, ?_, ?_, ?_⟩
    · have hpath := congrArg List.reverse hspan
      rwa [List.reverse_reverse, List.reverse_append, List.reverse_append, ← hbase,
        List.append_assoc] at hpath
    · rcases hfront : (b :: rest).dropWhile (· != slash) with - | ⟨c, f⟩
      · exact .inl rfl
      · have hc := not_of_dropWhile_eq_cons hfront
        rw [bne_eq_false_iff_eq] at hc
        rw [hc]
        exact .inr ⟨f.reverse, List.reverse_cons⟩
    · rw [hbase, List.mem_reverse]
      intro hmem
      have := List.mem_takeWhile_imp hmem
      simp at this
    · rw [hbase, List.takeWhile_cons_of_pos (by simpa using hb)]
      simp
    · intro c hc
      have := List.mem_takeWhile_imp (List.mem_reverse.mp hc)
      simpa using this

/-- The name of a file is the last part of its path. -/
theorem base_of_getLast? {path last : Bytes} (h : (parts path).getLast? = some last) :
    base path = last := by
  rcases eq_slashes_or_base path with hall | ⟨front, slashes, hpath, hfront, hname, hne, hslashes⟩
  · rw [parts_of_forall_slash hall] at h
    cases h
  · rw [hpath, getLast?_parts hfront hname hne hslashes] at h
    exact Option.some_inj.mp h

end Path

namespace FileTree

variable {t t' : FileTree} {place q : Place} {path contents : Bytes}

/-! ### Looking and changing -/

theorem lookup_filter_of_ne (files : List (Place × Bytes)) (h : q ≠ place) :
    (files.filter fun (p, _) => p != place).lookup q = files.lookup q := by
  induction files with
  | nil => rfl
  | cons file rest ih =>
    obtain ⟨p, c⟩ := file
    by_cases hp : p = place
    · -- the entry goes, and was not asked for
      subst hp
      rw [List.filter_cons_of_neg (by simp), ih, List.lookup_cons,
        show (q == p) = false from by simpa using h]
    · rw [List.filter_cons_of_pos (by simpa using hp), List.lookup_cons, List.lookup_cons, ih]

@[simp]
theorem file?_set (t : FileTree) (place : Place) (contents : Bytes) :
    (t.set place contents).file? place = some contents := by
  simp [file?, set]

theorem file?_set_of_ne (h : q ≠ place) : (t.set place contents).file? q = t.file? q := by
  have hne : (q == place) = false := by simpa using h
  rw [file?, set, List.lookup_cons, hne]
  exact lookup_filter_of_ne t.files h

/-- To remove what is not there changes nothing. -/
theorem erase_of_none (h : t.file? place = none) : t.erase place = t := by
  have hfiles : (t.files.filter fun (p, _) => p != place) = t.files := by
    apply List.filter_eq_self.mpr
    rintro ⟨p, c⟩ hmem
    show (p != place) = true
    rw [bne_iff_ne]
    rintro rfl
    have hkey := List.lookup_eq_none_iff.mp h (p, c) hmem
    simp at hkey
  rw [erase, hfiles]

@[simp]
theorem erase_set (t : FileTree) (place : Place) (contents : Bytes) :
    (t.set place contents).erase place = t.erase place := by
  simp [erase, set]

/-- To write a new file and remove it again changes nothing. -/
theorem erase_set_of_none (h : t.file? place = none) (contents : Bytes) :
    (t.set place contents).erase place = t := by
  rw [erase_set, erase_of_none h]

@[simp]
theorem set_set (t : FileTree) (place : Place) (c c' : Bytes) :
    (t.set place c).set place c' = t.set place c' := by
  rw [set, erase_set]
  rfl

theorem append_set (t : FileTree) (place : Place) (c c' : Bytes) :
    (t.set place c).append place c' = t.set place (c ++ c') := by
  simp [append]

/-- Chunks written one by one are written as a whole. -/
theorem foldl_append_set (t : FileTree) (place : Place) (c : Bytes) (chunks : List Bytes) :
    chunks.foldl (fun t chunk => t.append place chunk) (t.set place c) =
      t.set place (c ++ chunks.flatten) := by
  induction chunks generalizing c with
  | nil => simp
  | cons chunk rest ih =>
    rw [List.foldl_cons, append_set, ih, List.append_assoc, List.flatten_cons]

/-! ### Where paths lead -/

/-- Names lead to the same directories whatever file is set. -/
theorem walk_set {directory : Place} {names : List Bytes} :
    (t.set place contents).walk directory names = .ok q ↔ t.walk directory names = .ok q := by
  induction names generalizing directory with
  | nil => rfl
  | cons name rest ih =>
    have hdir : ∀ p, (t.set place contents).isDirectory p = t.isDirectory p := fun _ => rfl
    simp only [walk, hdir]
    split
    · exact ih
    · split
      · exact ih
      · split
        · simp
        · split
          · exact ih
          · -- no directory there: whatever the reason, no place
            constructor <;> intro h <;> split at h <;> cases h

theorem locate_set {l : Location} :
    (t.set place contents).locate path = .ok l ↔ t.locate path = .ok l := by
  unfold locate
  split
  · simp
  · split
    · simp
    · split
      · simp
      · split
        · rfl
        · rw [bind_eq_ok_iff, bind_eq_ok_iff]
          apply exists_congr
          intro parent
          rw [show (t.set place contents).start path = t.start path from rfl, walk_set]
          apply and_congr_right
          intro _
          split
          · rw [bind_eq_ok_iff, bind_eq_ok_iff]
            apply exists_congr
            intro directory
            rw [walk_set]
          · rfl

/-- What is set where a path leads is what is read there. -/
theorem read_set (h : t.locate path = .ok (.name place false)) :
    (t.set place contents).read path = .ok contents := by
  rw [read, locate_set.mpr h]
  simp

/-- What is written is read back. -/
theorem read_of_write (h : t.write path contents = .ok t') : t'.read path = .ok contents := by
  unfold write at h
  split at h
  · cases h
  · cases h
  · cases h
  · next place hlocate =>
    cases h
    exact read_set hlocate

/-! ### Temporary files -/

variable {s : System} {name : Bytes}

theorem attempt_eq_ok_iff {call : SystemCall} {paths : List Bytes} {u : Unit} :
    s.attempt call paths = .ok u ↔ s.fault? call = none := by
  rcases h : s.fault? call with - | cause
  · simp [System.attempt, h]
  · simp [System.attempt, h]

/-- The place of a new file is not in use. -/
theorem newPlace_eq_ok {dir : Bytes} (h : t.newPlace dir name = .ok place) :
    t.file? place = none ∧ ∃ directory, place = directory ++ [name] := by
  unfold newPlace at h
  dsimp only at h
  split at h
  · cases h
  · split at h
    · cases h
    · obtain ⟨directory, -, h⟩ := bind_eq_ok_iff.mp h
      split at h
      · cases h
      · split at h
        · cases h
        · next hunused =>
          cases h
          have hnone := (Bool.or_eq_false_iff.mp (Bool.eq_false_iff.mpr hunused)).2
          exact ⟨by simpa using hnone, directory, rfl⟩

/-- Whichever name is taken, it is not in use. -/
theorem createFirst_eq_ok {created : FileTree} {dir stem : Bytes} {endings : List Bytes}
    (h : t.createFirst s dir stem endings = .ok (created, place, name)) :
    created = t.set place [] ∧ t.file? place = none ∧ s.fault? .create = none ∧
      ∃ directory ending, place = directory ++ [stem ++ ending] := by
  induction endings with
  | nil => cases h
  | cons ending endings ih =>
    rw [createFirst] at h
    split at h
    · exact ih h
    · cases h
    · next hplace =>
      obtain ⟨_, hcreate, h⟩ := bind_eq_ok_iff.mp h
      cases h
      obtain ⟨hfresh, directory, rfl⟩ := newPlace_eq_ok hplace
      exact ⟨rfl, hfresh, attempt_eq_ok_iff.mp hcreate, directory, ending, rfl⟩

/-- **A temporary file has a name that is not in use**, made from the name at
the end of the path. -/
theorem createTemporaryOn_eq_ok {created : FileTree}
    (h : t.createTemporaryOn s path = .ok (created, place, name)) :
    created = t.set place [] ∧ t.file? place = none ∧ s.fault? .create = none ∧
      ∃ directory ending, place = directory ++ [temporaryStem path ++ ending] := by
  unfold createTemporaryOn at h
  dsimp only at h
  split at h
  · cases h
  · exact createFirst_eq_ok h

/-- Where a path leads, there is the name it ends with. -/
theorem locate_eq_name {target : Place} {slashed : Bool}
    (h : t.locate path = .ok (.name target slashed)) :
    ∃ parent, target = parent ++ [Path.base path] := by
  unfold locate at h
  split at h
  · cases h
  · split at h
    · cases h
    · split at h
      · cases h
      · split at h
        · cases h
        · next last hlast =>
          obtain ⟨parent, -, h⟩ := bind_eq_ok_iff.mp h
          refine ⟨parent, ?_⟩
          rw [Path.base_of_getLast? hlast]
          split at h
          · obtain ⟨_, -, h⟩ := bind_eq_ok_iff.mp h
            cases h
          · split at h
            · cases h
            · split at h
              · cases h
              · cases h
                rfl

/-- A path never leads to its temporary file, whose name is longer. -/
theorem locate_ne_temporary {target directory : Place} {ending : Bytes} {slashed : Bool}
    (h : t.locate path = .ok (.name target slashed)) :
    directory ++ [temporaryStem path ++ ending] ≠ target := by
  obtain ⟨parent, rfl⟩ := locate_eq_name h
  intro heq
  -- the stem alone is two bytes longer than the name
  have hlast := congrArg List.length (List.append_inj_right' heq rfl |> List.singleton_inj.mp)
  simp only [temporaryStem, List.length_append, List.length_cons] at hlast
  omega

/-! ### Replacing -/

variable {ε : Type} {chunks : List Bytes} {outcome : Except ε Unit}

/-- The temporary file takes the place of the one that the path leads to. -/
theorem rename_eq_ok_iff (hfresh : t.file? place = none) :
    (t.set place contents).rename place name path = .ok t' ↔
      ∃ target, t.locate path = .ok (.name target false) ∧ t' = t.set target contents := by
  have hmoved : ∀ target, ((t.set place contents).erase place).set target
      (((t.set place contents).file? place).getD []) = t.set target contents := by
    intro target
    rw [erase_set_of_none hfresh, file?_set]
    rfl
  constructor
  · intro h
    unfold rename at h
    split at h
    · cases h
    · cases h
    · cases h
    · next target hlocate =>
      cases h
      exact ⟨target, locate_set.mp hlocate, hmoved target⟩
  · rintro ⟨target, hlocate, rfl⟩
    rw [rename, locate_set.mpr hlocate]
    exact congrArg Except.ok (hmoved target)

theorem moveInto_eq_ok_iff {moved : FileTree} :
    t.moveInto s place name path outcome = .ok moved ↔
      outcome = .ok () ∧ s.fault? .close = none ∧ s.fault? .mode = none ∧
        s.fault? .rename = none ∧ t.rename place name path = .ok moved := by
  have hunit : ∀ {P : Unit → Prop}, (∃ u, P u) ↔ P () := ⟨fun ⟨(), h⟩ => h, fun h => ⟨(), h⟩⟩
  simp only [moveInto, bind_eq_ok_iff, mapError_eq_ok_iff, attempt_eq_ok_iff, hunit]

/-- A file can be replaced: it is written to its end, no call fails for a reason
of its own, there is room for a temporary file, and the path leads to a
name. -/
structure Replaceable (t : FileTree) (s : System) (path : Bytes) (outcome : Except ε Unit) :
    Prop where
  written : outcome = .ok ()
  sound : ∀ call, s.fault? call = none
  room : ∃ made, t.createTemporaryOn s path = .ok made
  named : ∃ target, t.locate path = .ok (.name target false)

/-- **What a replacement does**: it leaves the tree as it was, or sets the file
where the path leads to all the chunks, and nothing else. -/
theorem replaceOn_cases (t : FileTree) (s : System) (path : Bytes) (chunks : List Bytes)
    (outcome : Except ε Unit) :
    (¬ t.Replaceable s path outcome ∧ ∃ e, t.replaceOn s path chunks outcome = (.error e, t)) ∨
      (t.Replaceable s path outcome ∧ ∃ target, t.locate path = .ok (.name target false) ∧
        t.replaceOn s path chunks outcome = (.ok (), t.set target chunks.flatten)) := by
  rcases hcreate : t.createTemporaryOn s path with e | ⟨created, place, name⟩
  · refine .inl ⟨?_, .system e, by simp only [replaceOn, hcreate]⟩
    rintro ⟨-, -, ⟨made, hmade⟩, -⟩
    rw [hcreate] at hmade
    cases hmade
  · obtain ⟨rfl, hfresh, hfault, directory, ending, hplace⟩ := createTemporaryOn_eq_ok hcreate
    have hwritten := foldl_append_set t place [] chunks
    rw [List.nil_append] at hwritten
    rcases hmove : (t.set place chunks.flatten).moveInto s place name path outcome with e | moved
    · refine .inl ⟨?_, e, by simp only [replaceOn, hcreate, hwritten, hmove,
        erase_set_of_none hfresh]⟩
      -- with nothing in its way the move would have gone well
      rintro ⟨houtcome, hsound, -, target, hlocate⟩
      have hrename : (t.set place chunks.flatten).rename place name path =
          .ok (t.set target chunks.flatten) := (rename_eq_ok_iff hfresh).mpr ⟨target, hlocate, rfl⟩
      have hmoved := moveInto_eq_ok_iff.mpr
        ⟨houtcome, hsound .close, hsound .mode, hsound .rename, hrename⟩
      rw [hmove] at hmoved
      cases hmoved
    · obtain ⟨houtcome, hclose, hmode, hrename, hmoved⟩ := moveInto_eq_ok_iff.mp hmove
      obtain ⟨target, hlocate, rfl⟩ := (rename_eq_ok_iff hfresh).mp hmoved
      have hsound : ∀ call, s.fault? call = none := by
        rintro (- | - | - | -) <;> assumption
      -- the file has moved away, so the removal finds nothing
      have hgone : (t.set target chunks.flatten).file? place = none := by
        rw [hplace, file?_set_of_ne (locate_ne_temporary hlocate), ← hplace, hfresh]
      refine .inr ⟨⟨houtcome, hsound, ⟨_, hcreate⟩, target, hlocate⟩, target, hlocate, ?_⟩
      simp only [replaceOn, hcreate, hwritten, hmove, erase_of_none hgone]

/-- A replacement that fails leaves the tree as it was. -/
theorem replace_eq_error {e : ReplaceError ε}
    (h : t.replace path chunks outcome = (.error e, t')) : t' = t := by
  rcases replaceOn_cases t t.reliable path chunks outcome with
    ⟨-, e', he⟩ | ⟨-, target, -, hok⟩
  · cases he.symm.trans h
    rfl
  · cases hok.symm.trans h

/-- A replacement that goes well sets the file where the path leads to all the
chunks, and nothing else. -/
theorem replace_eq_ok_iff :
    t.replace path chunks outcome = (.ok (), t') ↔
      outcome = .ok () ∧ (∃ made, t.createTemporary path = .ok made) ∧
        ∃ target, t.locate path = .ok (.name target false) ∧ t' = t.set target chunks.flatten := by
  rcases replaceOn_cases t t.reliable path chunks outcome with
    ⟨hnot, e, he⟩ | ⟨⟨houtcome, -, hroom, -⟩, target, hlocate, hok⟩
  · constructor
    · intro h
      cases he.symm.trans h
    · rintro ⟨houtcome, hroom, target, hlocate, -⟩
      exact absurd ⟨houtcome, fun _ => rfl, hroom, target, hlocate⟩ hnot
  · constructor
    · intro h
      cases hok.symm.trans h
      exact ⟨houtcome, hroom, target, hlocate, rfl⟩
    · rintro ⟨-, -, target', hlocate', rfl⟩
      cases hlocate.symm.trans hlocate'
      exact hok

/-- **All or nothing.**  Whatever the tree, the system, the path, the chunks and
the end of the writer: a replacement that fails leaves the tree as it was, and
one that goes well leaves exactly the chunks where the path leads and every
other file as it was.  It goes well exactly if the file can be replaced. -/
theorem replaceOn_whole_or_nothing (t : FileTree) (s : System) (path : Bytes)
    (chunks : List Bytes) (outcome : Except ε Unit) :
    (¬ t.Replaceable s path outcome ∧ ∃ e, t.replaceOn s path chunks outcome = (.error e, t)) ∨
      (t.Replaceable s path outcome ∧ ∃ t' target,
        t.replaceOn s path chunks outcome = (.ok (), t') ∧
        t.locate path = .ok (.name target false) ∧
        t'.read path = .ok chunks.flatten ∧
        (∀ q, t'.file? q = if q = target then some chunks.flatten else t.file? q) ∧
        t'.erase target = t.erase target) := by
  rcases replaceOn_cases t s path chunks outcome with hfails | ⟨hcan, target, hlocate, hok⟩
  · exact .inl hfails
  · refine .inr ⟨hcan, _, target, hok, hlocate, read_set hlocate, ?_, erase_set t target _⟩
    intro q
    split
    · next hq => rw [hq, file?_set]
    · next hq => exact file?_set_of_ne hq

/-- The first name drawn for the temporary file is in use. -/
example :
    (⟨[([ascii "a"], [1]), ([ascii ".a.1"], [2])], [], []⟩ : FileTree).replaceOn
        ⟨ascii "1", [ascii "2"], id, fun _ => none⟩ (ascii "a") [[3], [4]]
        (.ok () : Except Empty Unit) =
      (.ok (), ⟨[([ascii "a"], [3, 4]), ([ascii ".a.1"], [2])], [], []⟩) := by
  decide +kernel

end FileTree

end Mos6502
