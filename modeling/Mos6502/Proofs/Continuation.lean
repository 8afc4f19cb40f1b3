/-
Mos6502/Proofs/Continuation.lean

What more nodes leave as it was.  The pass never returns to what it has placed
or declared, so all that a program has settled is kept when the text goes on.
Only labels that still wait are open, and they are closed by different code:
at the end of the text they are declared behind the last instruction, and if
an instruction follows they are declared in front of it.  The address is the
same, for both happen at the cursor.

* `Builder.Continues` — the two ways in which a later state can follow a state:
  nothing was placed since, or the labels that waited are declared;
* `Builder.run_continues` — every run leads to such a state;
* `Builder.Continues.exists_finish`, `Builder.Continues.begins` — if the later
  state can be ended, so can the earlier one, and the later program begins with
  the earlier.
-/
import Mathlib.Data.List.TakeWhile
import Mos6502.Proofs.Representation

namespace Mos6502

/-! ### Programs that begin alike -/

/-- A program that another one begins with.  A label behind its last
instruction may stand in front of the next one there. -/
structure Program.Begins (p q : Program) : Prop where
  code : p.code.toList <+: q.code.toList
  labels : p.labels <+: q.labels
  symbols : ∀ s ∈ p.symbols.toList, ∃ t ∈ q.symbols.toList, t.name = s.name ∧
    t.address = s.address ∧ (t.index = s.index ∨ s.index = none ∧ t.index = some p.code.size)

namespace Builder

variable {b mid b' : Builder} {node : Node} {nodes : List Node}

/-- The table as an instruction would leave it: the labels that wait are
declared in front of that instruction. -/
def foreseen (b : Builder) : List Symbol :=
  b.symbols.toList ++ b.pending.toList.map (declared b.cursor (some b.code.size))

theorem map_name_foreseen (b : Builder) : b.foreseen.map Symbol.name = b.names := by
  rw [foreseen, List.map_append, map_name_declared, names]

/-! ### States that follow a state -/

/-- The states that can follow a state. -/
inductive Continues (b : Builder) : Builder → Prop
  /-- No instruction has followed: the labels wait on, perhaps with others. -/
  | waiting (more : List PendingLabel) :
      Continues b { b with pending := b.pending ++ more.toArray }
  /-- An instruction has followed: the labels stand in front of it. -/
  | settled {b' : Builder} : b.code.toList <+: b'.code.toList →
      b.foreseen <+: b'.symbols.toList → Continues b b'

theorem Continues.refl (b : Builder) : b.Continues b := by
  simpa using waiting (b := b) []

/-- One more step keeps what was settled. -/
theorem Continues.step (hc : b.Continues mid) (hmid : mid.Valid) (h : mid.step node = .ok b') :
    b.Continues b' := by
  rcases step_cases h with ⟨-, e, e', symbols, -, -, hsymbols, rfl⟩ | ⟨-, rfl⟩
  · obtain ⟨-, -, rfl⟩ := (defineAll_eq_ok_iff hmid.nodup).mp hsymbols
    cases hc with
    | waiting more =>
      -- this is the instruction that the labels have waited for
      refine .settled ?_ ?_
      · simp
      · simp [foreseen]
    | settled hcode hforeseen =>
      refine .settled (hcode.trans ?_) (hforeseen.trans ?_)
      · simp
      · simp
  · cases hc with
    | waiting more =>
      simpa using waiting (b := b) (more ++ pendingOf node.line node.labels)
    | settled hcode hforeseen => exact .settled hcode hforeseen

/-- **A run keeps what was settled before it.** -/
theorem run_continues (hb : b.Valid) (h : b.run nodes = .ok b') : b.Continues b' := by
  have hinv : b'.Valid ∧ b.Continues b' :=
    foldlM_invariant (P := fun mid => mid.Valid ∧ b.Continues mid)
      (fun _ hmid hstep => ⟨step_valid hmid.1 hstep, hmid.2.step hmid.1 hstep⟩)
      ⟨hb, .refl b⟩ h
  exact hinv.2

/-- Labels are read in order, whether they are declared yet or not. -/
theorem Continues.names (hc : b.Continues b') : b.names <+: b'.names := by
  cases hc with
  | waiting more => simp [Builder.names]
  | settled _ hforeseen =>
    rw [← map_name_foreseen, Builder.names]
    exact (hforeseen.map Symbol.name).trans (List.prefix_append _ _)

/-! ### Ends of the pass -/

/-- What can be ended later can be ended now. -/
theorem Continues.exists_finish (hc : b.Continues b') (hb : b.Valid) (hb' : b'.Valid)
    {q : Program} (h : b'.finish = .ok q) : ∃ p, b.finish = .ok p := by
  obtain ⟨hnodup, hlt, -⟩ := (finish_eq_ok_iff hb').mp h
  refine ⟨_, (finish_eq_ok_iff hb).mpr ⟨hnodup.sublist hc.names.sublist, ?_, rfl⟩⟩
  intro hpending
  cases hc with
  | waiting more =>
    apply hlt
    simp [hpending]
  | settled _ hforeseen =>
    -- a label that waited is declared at the cursor, and declared labels are addresses
    obtain ⟨label, hlabel⟩ := List.exists_mem_of_ne_nil _ hpending
    apply hb'.symbol_lt (declared b.cursor (some b.code.size) label)
    apply hforeseen.subset
    exact List.mem_append_right _ (List.mem_map_of_mem hlabel)

/-- **A program begins with the program of every state on its way.** -/
theorem Continues.begins (hc : b.Continues b') (hb : b.Valid) (hb' : b'.Valid) {p q : Program}
    (hp : b.finish = .ok p) (hq : b'.finish = .ok q) : p.Begins q := by
  have hlabels : p.labels <+: q.labels := by
    rw [labels_of_finish hb hp, labels_of_finish hb' hq]
    exact hc.names
  obtain ⟨-, -, rfl⟩ := (finish_eq_ok_iff hb).mp hp
  obtain ⟨-, -, rfl⟩ := (finish_eq_ok_iff hb').mp hq
  cases hc with
  | waiting more =>
    refine ⟨List.prefix_rfl, hlabels, ?_⟩
    intro s hs
    refine ⟨s, ?_, rfl, rfl, .inl rfl⟩
    rw [Array.toList_append, List.mem_append] at hs ⊢
    rcases hs with hs | hs
    · exact .inl hs
    · right
      simp only [Array.toList_append, List.map_append]
      exact List.mem_append_left _ hs
  | settled hcode hforeseen =>
    refine ⟨hcode, hlabels, ?_⟩
    have hmem : ∀ t ∈ b.foreseen,
        t ∈ (b'.symbols ++ (b'.pending.toList.map (declared b'.cursor none)).toArray).toList := by
      intro t ht
      rw [Array.toList_append]
      exact List.mem_append_left _ (hforeseen.subset ht)
    intro s hs
    rw [Array.toList_append, List.mem_append] at hs
    rcases hs with hs | hs
    · exact ⟨s, hmem s (List.mem_append_left _ hs), rfl, rfl, .inl rfl⟩
    · -- a label behind the last instruction now stands in front of the next
      obtain ⟨label, hlabel, rfl⟩ := List.mem_map.mp hs
      refine ⟨declared b.cursor (some b.code.size) label, hmem _ ?_, rfl, rfl, .inr ⟨rfl, rfl⟩⟩
      exact List.mem_append_right _ (List.mem_map_of_mem hlabel)

end Builder

/-! ### Programs -/

/-- A declared label is found under its name. -/
theorem Program.symbol?_of_mem {p : Program} (hp : p.labels.Nodup) {s : Symbol}
    (hs : s ∈ p.symbols.toList) : p.symbol? s.name = some s := by
  have hsome : (p.symbol? s.name).isSome :=
    isSome_symbol?_iff.mpr (List.mem_map_of_mem hs)
  obtain ⟨t, ht⟩ := Option.isSome_iff_exists.mp hsome
  obtain ⟨hmem, hname⟩ := mem_of_symbol? ht
  rw [ht, List.inj_on_of_nodup_map hp hmem hs hname]

/-- A label of a program is found in every program that begins with it, at the
same address. -/
theorem Program.Begins.lookup {p q : Program} (h : p.Begins q) (hp : p.labels.Nodup)
    (hq : q.labels.Nodup) {name : Bytes} (hname : name ∈ p.labels) :
    p.lookup? name = q.lookup? name ∧
      ∃ s t, p.symbol? name = some s ∧ q.symbol? name = some t ∧ s.address = t.address ∧
        (t.index = s.index ∨ s.index = none ∧ t.index = some p.code.size) := by
  obtain ⟨s, hs, rfl⟩ := List.mem_map.mp hname
  obtain ⟨t, ht, heq, haddress, hindex⟩ := h.symbols s hs
  have hps := symbol?_of_mem hp hs
  have hqt := symbol?_of_mem hq ht
  rw [heq] at hqt
  refine ⟨?_, s, t, hps, hqt, haddress.symm, hindex⟩
  rw [lookup?, lookup?, hps, hqt, Option.map_some, Option.map_some, haddress]

/-- **What a text has settled stays as it is when the text goes on.**  If nodes
build a program with others behind them, they build one alone; its expressions,
addresses and labels are the first of the longer program, and every label has
the same address there.  A label behind the last instruction stays there or
comes to stand in front of the first instruction that follows. -/
theorem build_append_keeps {xs ys : List Node} (hxs : ∀ node ∈ xs, node.isFinish = false)
    {q : Program} (h : build (xs ++ ys) = .ok q) :
    ∃ p, build xs = .ok p ∧ p.expressions <+: q.expressions ∧ p.addresses <+: q.addresses ∧
      p.labels <+: q.labels ∧
      ∀ name ∈ p.labels, p.lookup? name = q.lookup? name ∧
        ∃ s t, p.symbol? name = some s ∧ q.symbol? name = some t ∧ s.address = t.address ∧
          (t.index = s.index ∨ s.index = none ∧ t.index = some p.code.size) := by
  have hq := build_wellFormed h
  have hall : ∀ node ∈ xs, (!node.isFinish) = true := fun node hnode => by simp [hxs node hnode]
  obtain ⟨b', hvalid', hrun, hfinish⟩ := build_eq_ok_iff.mp h
  rw [List.takeWhile_append_of_pos hall] at hrun
  -- the state between the two lists
  obtain ⟨b, hb, hb'⟩ := foldlM_append_ok.mp hrun
  have hvalid := Builder.run_valid Builder.start_valid hb
  have hcontinues := Builder.run_continues hvalid hb'
  obtain ⟨p, hp⟩ := hcontinues.exists_finish hvalid hvalid' hfinish
  have hbegins := hcontinues.begins hvalid hvalid' hp hfinish
  have hbuild : build xs = .ok p := by
    refine build_eq_ok_iff.mpr ⟨b, hvalid, ?_, hp⟩
    rw [List.takeWhile_eq_self_iff.mpr hall]
    exact hb
  refine ⟨p, hbuild, hbegins.code.map _, hbegins.code.map _, hbegins.labels, ?_⟩
  intro name hname
  exact hbegins.lookup (build_wellFormed hbuild).nodup hq.nodup hname

/-- A label behind the last instruction, and the branch that comes to stand
behind it. -/
theorem build_append_keeps_trailing :
    ∃ p q : Program,
      build [.instruction 1 [] (ascii "NOP") none, .label 2 [ascii "end"]] = .ok p ∧
      build ([.instruction 1 [] (ascii "NOP") none, .label 2 [ascii "end"]] ++
        [.instruction 3 [] (ascii "BNE") (some ⟨.bare, ascii "end", 0, ascii "end"⟩),
          .finish 4]) = .ok q ∧
      p.expressions <+: q.expressions ∧ p.labels <+: q.labels ∧
      p.lookup? (ascii "end") = some 1 ∧ q.lookup? (ascii "end") = some 1 ∧
      p.definition? (ascii "end") = none ∧
      q.definition? (ascii "end") = some ⟨.bne, .relative, .label (ascii "end"), 3⟩ := by
  have hq : build ([.instruction 1 [] (ascii "NOP") none, .label 2 [ascii "end"]] ++
      [.instruction 3 [] (ascii "BNE") (some ⟨.bare, ascii "end", 0, ascii "end"⟩), .finish 4]) =
      .ok ⟨#[⟨0, .nop, .implied, .none, 1⟩, ⟨1, .bne, .relative, .label (ascii "end"), 3⟩],
        #[⟨ascii "end", 1, some 1, 2⟩], 3⟩ := by
    decide +kernel
  have hp : build [.instruction 1 [] (ascii "NOP") none, .label 2 [ascii "end"]] =
      .ok ⟨#[⟨0, .nop, .implied, .none, 1⟩], #[⟨ascii "end", 1, none, 2⟩], 1⟩ := by
    decide +kernel
  obtain ⟨p, hbuild, hexpressions, -, hlabels, hlookup⟩ := build_append_keeps (by decide) hq
  rw [hp] at hbuild
  cases hbuild
  obtain ⟨hsame, -⟩ := hlookup (ascii "end") (by decide +kernel)
  have hend : Program.lookup? ⟨#[⟨0, .nop, .implied, .none, 1⟩], #[⟨ascii "end", 1, none, 2⟩], 1⟩
      (ascii "end") = some 1 := by
    decide +kernel
  exact ⟨_, _, hp, hq, hexpressions, hlabels, hend, hsame.symm.trans hend, by decide +kernel,
    by decide +kernel⟩

end Mos6502
