/-
Mos6502/Proofs/Acceptance.lean

Which lists of nodes become a program.  The pass checks while it goes: a
destination when its branch is placed, a name against the table so far, the
size after every instruction.  Together these checks are one condition on the
whole list (`Acceptable`), in which no pass and no table occur.

The state of the pass carries over to the nodes that are left: they start at
the cursor, the names read so far are taken, and some of those still wait for
an instruction (`Builder.Admits`).  A step moves a node from the list into the
state without changing this condition (`Builder.admits_cons`), so the pass
succeeds exactly if its first state admits the whole list.
-/
import Mathlib.Data.List.DropRight
import Mos6502.Proofs.Representation

namespace Mos6502

/-- The number of bytes that a node takes. -/
def Node.size (node : Node) : Nat :=
  match Expression.ofNode node with
  | .ok e => e.size
  | .error _ => 0

/-- The number of bytes that a list of nodes takes. -/
def codeSize (nodes : List Node) : Nat :=
  (nodes.map Node.size).sum

/-- The labels of a list of nodes that stand behind its last instruction. -/
def trailingLabels (nodes : List Node) : List Bytes :=
  (nodes.rtakeWhile fun node => node.kind != .instruction).flatMap Node.labels

/-- A list of nodes that makes a section. -/
structure Acceptable (nodes : List Node) : Prop where
  expressions : ∀ node ∈ nodes, node.kind = .instruction → ∃ e, Expression.ofNode node = .ok e
  /-- A branch reaches the destination given as a literal from where it stands,
  which is behind all nodes before it. -/
  targets : ∀ before node after e t, nodes = before ++ node :: after →
    Expression.ofNode node = .ok e → e.operand = .target t →
      -128 ≤ (t.toNat : Int) - (codeSize before + 2) ∧
        (t.toNat : Int) - (codeSize before + 2) ≤ 127
  nodup : (nodes.flatMap Node.labels).Nodup
  size_le : codeSize nodes ≤ 0x10000
  /-- There is no address left behind a full section. -/
  trailing : codeSize nodes = 0x10000 → trailingLabels nodes = []

/-! ### Sizes -/

theorem Node.size_of_ofNode {node : Node} {e : Expression} (h : Expression.ofNode node = .ok e) :
    node.size = e.size := by
  rw [Node.size, h]

theorem Node.kind_of_ofNode {node : Node} {e : Expression} (h : Expression.ofNode node = .ok e) :
    node.kind = .instruction := by
  obtain ⟨_, _, _, rfl, -⟩ := Expression.ofNode_eq_ok_iff.mp h
  rfl

theorem Node.size_of_kind {node : Node} (h : node.kind ≠ .instruction) : node.size = 0 := by
  unfold Node.size
  split
  · next hnode => exact absurd (Node.kind_of_ofNode hnode) h
  · rfl

@[simp] theorem codeSize_nil : codeSize [] = 0 := rfl

@[simp] theorem codeSize_cons (node : Node) (nodes : List Node) :
    codeSize (node :: nodes) = node.size + codeSize nodes := by
  simp [codeSize]

namespace Builder

variable {b b' : Builder} {node : Node} {nodes rest : List Node}

/-! ### What one step checks -/

/-- The checks on a literal destination: it lies within the reach of the
branch. -/
theorem exists_resolveTarget_iff {address : Nat} {e : Expression} :
    (∃ e', resolveTarget address e = .ok e') ↔ ∀ t, e.operand = .target t →
      -128 ≤ (t.toNat : Int) - (address + 2) ∧ (t.toNat : Int) - (address + 2) ≤ 127 := by
  unfold resolveTarget
  split
  · next t ht =>
    rw [ht]
    constructor
    · rintro ⟨e', h⟩ t' ht'
      cases ht'
      split at h
      · next hd => exact (displacement_eq_ok_iff.mp hd).1
      · cases h
    · intro h
      rw [displacement_eq_ok_iff.mpr ⟨h t rfl, rfl⟩]
      exact ⟨_, rfl⟩
  · next hother =>
    exact ⟨fun _ t ht => absurd ht (hother t), fun _ => ⟨e, rfl⟩⟩

/-- The checks on an instruction. -/
theorem exists_step_iff (hb : b.Valid) (hkind : node.kind = .instruction) :
    (∃ b', b.step node = .ok b') ↔ ∃ e, Expression.ofNode node = .ok e ∧
      (∀ t, e.operand = .target t → -128 ≤ (t.toNat : Int) - (b.cursor + 2) ∧
        (t.toNat : Int) - (b.cursor + 2) ≤ 127) ∧
      (b.names ++ node.labels).Nodup ∧ b.cursor + node.size ≤ addressSpace := by
  obtain ⟨line, labels, name, operand, rfl⟩ :
      ∃ line labels name operand, node = .instruction line labels name operand := by
    cases node <;> cases hkind
    exact ⟨_, _, _, _, rfl⟩
  have hnames : b.symbols.toList.map Symbol.name ++
      (b.pending.toList ++ pendingOf line labels).map PendingLabel.name = b.names ++ labels := by
    rw [List.map_append, map_name_pendingOf, ← List.append_assoc]
    rfl
  rcases hnode : Expression.ofNode (.instruction line labels name operand) with cause | e
  · simp [step, hnode]
  -- the destination becomes a displacement, and the size stays
  have hsize : ∀ e', resolveTarget b.cursor e = .ok e' → e'.size = e.size := fun e' he' => by
    rw [Expression.size, (resolveTarget_spec (Expression.ofNode_spec hnode) he').2.2.1]
    rfl
  have hpos : 0 < e.size := Nat.succ_pos _
  rw [Node.size_of_ofNode hnode]
  simp only [step, hnode, place_eq_ok_iff, defineAll_eq_ok_iff hb.nodup, hnames]
  constructor
  · rintro ⟨b', e', symbols, he', ⟨hnodup, -, -⟩, hle, -⟩
    rw [hsize e' he'] at hle
    exact ⟨e, rfl, exists_resolveTarget_iff.mp ⟨e', he'⟩, hnodup, hle⟩
  · rintro ⟨e₀, he₀, htarget, hnodup, hle⟩
    cases he₀
    obtain ⟨e', he'⟩ := exists_resolveTarget_iff.mpr htarget
    refine ⟨_, e', _, he', ⟨hnodup, fun _ => by omega, rfl⟩, ?_, rfl⟩
    rw [hsize e' he']
    exact hle

theorem step_of_kind (hkind : node.kind ≠ .instruction) : ∃ b', b.step node = .ok b' := by
  cases node with
  | instruction => exact absurd rfl hkind
  | label => exact ⟨_, rfl⟩
  | finish => exact ⟨_, rfl⟩
  | other => exact ⟨_, rfl⟩

/-! ### What one step does -/

theorem step_cursor (h : b.step node = .ok b') : b'.cursor = b.cursor + node.size := by
  rcases step_cases h with ⟨-, e, e', symbols, hnode, he', -, rfl⟩ | ⟨hkind, rfl⟩
  · have hmode := (resolveTarget_spec (Expression.ofNode_spec hnode) he').2.2.1
    show b.cursor + e'.size = b.cursor + node.size
    rw [Node.size_of_ofNode hnode, Expression.size, Expression.size, hmode]
  · rw [Node.size_of_kind hkind, Nat.add_zero]

/-- The labels that wait after a node, given those that wait before it. -/
def waiting (labels : List Bytes) (node : Node) : List Bytes :=
  if node.kind = .instruction then [] else labels ++ node.labels

theorem step_waiting (h : b.step node = .ok b') :
    b'.pending.toList.map PendingLabel.name =
      waiting (b.pending.toList.map PendingLabel.name) node := by
  rcases step_cases h with ⟨hkind, e, e', symbols, -, -, -, rfl⟩ | ⟨hkind, rfl⟩
  · rw [waiting, if_pos hkind]
    rfl
  · rw [waiting, if_neg hkind]
    simp [map_name_pendingOf]

/-! ### What a state admits -/

/-- The nodes that the pass still accepts in a state. -/
structure Admits (b : Builder) (nodes : List Node) : Prop where
  expressions : ∀ node ∈ nodes, node.kind = .instruction → ∃ e, Expression.ofNode node = .ok e
  targets : ∀ before node after e t, nodes = before ++ node :: after →
    Expression.ofNode node = .ok e → e.operand = .target t →
      -128 ≤ (t.toNat : Int) - ((b.cursor + codeSize before : Nat) + 2) ∧
        (t.toNat : Int) - ((b.cursor + codeSize before : Nat) + 2) ≤ 127
  nodup : (b.names ++ nodes.flatMap Node.labels).Nodup
  size_le : b.cursor + codeSize nodes ≤ addressSpace
  trailing : b.cursor + codeSize nodes = addressSpace →
    nodes.foldl waiting (b.pending.toList.map PendingLabel.name) = []

theorem exists_step_of_admits (hb : b.Valid) (h : b.Admits (node :: rest)) :
    ∃ b', b.step node = .ok b' := by
  by_cases hkind : node.kind = .instruction
  · apply (exists_step_iff hb hkind).mpr
    obtain ⟨e, he⟩ := h.expressions node List.mem_cons_self hkind
    have hnodup := h.nodup
    have hsize := h.size_le
    rw [List.flatMap_cons, ← List.append_assoc] at hnodup
    rw [codeSize_cons] at hsize
    exact ⟨e, he, fun t ht => h.targets [] node rest e t rfl he ht, hnodup.of_append_left, by omega⟩
  · exact step_of_kind hkind

/-- A step moves a node from the list into the state. -/
theorem admits_cons (hb : b.Valid) (h : b.step node = .ok b') :
    b.Admits (node :: rest) ↔ b'.Admits rest := by
  have hcursor : ∀ n, b'.cursor + n = b.cursor + (node.size + n) := fun n => by
    rw [step_cursor h, Nat.add_assoc]
  have hnames : b'.names ++ rest.flatMap Node.labels =
      b.names ++ (node :: rest).flatMap Node.labels := by
    rw [step_names hb h, List.flatMap_cons, List.append_assoc]
  constructor
  · intro hb'
    refine ⟨fun n hn => hb'.expressions n (List.mem_cons_of_mem _ hn), ?_, ?_, ?_, ?_⟩
    · intro before n after e t hsplit hn ht
      have := hb'.targets (node :: before) n after e t (congrArg (node :: ·) hsplit) hn ht
      rwa [codeSize_cons, ← hcursor] at this
    · rw [hnames]
      exact hb'.nodup
    · rw [hcursor, ← codeSize_cons]
      exact hb'.size_le
    · rw [hcursor, ← codeSize_cons, step_waiting h]
      exact hb'.trailing
  · intro hrest
    -- the checks on the node itself are those that the step has made
    have hchecked : ∀ {e}, Expression.ofNode node = .ok e → ∀ t, e.operand = .target t →
        -128 ≤ (t.toNat : Int) - (b.cursor + 2) ∧ (t.toNat : Int) - (b.cursor + 2) ≤ 127 := by
      intro e he
      obtain ⟨e', he', htarget, -⟩ := (exists_step_iff hb (Node.kind_of_ofNode he)).mp ⟨b', h⟩
      cases he.symm.trans he'
      exact htarget
    refine ⟨?_, ?_, ?_, ?_, ?_⟩
    · intro n hn hkind
      rcases List.mem_cons.mp hn with rfl | hn
      · obtain ⟨e, he, -⟩ := (exists_step_iff hb hkind).mp ⟨b', h⟩
        exact ⟨e, he⟩
      · exact hrest.expressions n hn hkind
    · intro before n after e t hsplit hn ht
      cases before with
      | nil =>
        cases hsplit
        exact hchecked hn t ht
      | cons m before =>
        cases hsplit
        rw [codeSize_cons, ← hcursor]
        exact hrest.targets before n after e t rfl hn ht
    · rw [← hnames]
      exact hrest.nodup
    · rw [codeSize_cons, ← hcursor]
      exact hrest.size_le
    · rw [codeSize_cons, ← hcursor, List.foldl_cons, ← step_waiting h]
      exact hrest.trailing

/-- At the end the labels that wait are declared behind the section. -/
theorem admits_nil (hb : b.Valid) : b.Admits [] ↔ ∃ p, b.finish = .ok p := by
  have hfinish : (∃ p, b.finish = .ok p) ↔ b.names.Nodup ∧
      (b.pending.toList ≠ [] → b.cursor < addressSpace) := by
    simp only [finish_eq_ok_iff hb]
    constructor
    · rintro ⟨p, hnodup, hlt, -⟩
      exact ⟨hnodup, hlt⟩
    · rintro ⟨hnodup, hlt⟩
      exact ⟨_, hnodup, hlt, rfl⟩
  have hle := hb.cursor_le
  rw [hfinish]
  constructor
  · intro h
    refine ⟨by simpa using h.nodup, fun hpending => ?_⟩
    have hne : b.cursor ≠ addressSpace := fun heq =>
      hpending (List.map_eq_nil_iff.mp (h.trailing heq))
    omega
  · rintro ⟨hnodup, hlt⟩
    refine ⟨by simp, ?_, by simpa using hnodup, hle, ?_⟩
    · intro before n after e t hsplit
      simp at hsplit
    · intro hfull
      show b.pending.toList.map PendingLabel.name = []
      by_contra hpending
      have := hlt fun h => hpending (by rw [h, List.map_nil])
      rw [codeSize_nil] at hfull
      omega

/-- **The pass from a state succeeds exactly on the nodes it admits.** -/
theorem exists_finish_iff (hb : b.Valid) (nodes : List Node) :
    (∃ p, b.run nodes >>= finish = .ok p) ↔ b.Admits nodes := by
  induction nodes generalizing b with
  | nil => exact (admits_nil hb).symm
  | cons node rest ih =>
    have hrun : b.run (node :: rest) = b.step node >>= fun b' => b'.run rest := List.foldlM_cons
    rw [hrun]
    constructor
    · rintro ⟨p, h⟩
      obtain ⟨last, hlast, hfinish⟩ := bind_eq_ok_iff.mp h
      obtain ⟨b', hstep, hrest⟩ := bind_eq_ok_iff.mp hlast
      apply (admits_cons hb hstep).mpr
      exact (ih (step_valid hb hstep)).mp ⟨p, bind_eq_ok_iff.mpr ⟨last, hrest, hfinish⟩⟩
    · intro h
      obtain ⟨b', hstep⟩ := exists_step_of_admits hb h
      rw [hstep]
      exact (ih (step_valid hb hstep)).mpr ((admits_cons hb hstep).mp h)

/-! ### From the first state -/

theorem trailingLabels_concat (nodes : List Node) (node : Node) :
    trailingLabels (nodes ++ [node]) = waiting (trailingLabels nodes) node := by
  rw [trailingLabels, List.rtakeWhile_concat, waiting]
  by_cases hkind : node.kind = .instruction
  · simp [hkind]
  · simp [hkind, trailingLabels]

/-- The labels that wait at the end are those behind the last instruction. -/
theorem foldl_waiting (nodes : List Node) : nodes.foldl waiting [] = trailingLabels nodes := by
  induction nodes using List.reverseRecOn with
  | nil => rfl
  | append_singleton nodes node ih =>
    rw [List.foldl_append, ih, trailingLabels_concat]
    rfl

theorem admits_start : start.Admits nodes ↔ Acceptable nodes := by
  have hcursor : ∀ n, start.cursor + n = n := Nat.zero_add
  have hnames : start.names = [] := rfl
  constructor
  · rintro ⟨hexpr, htargets, hnodup, hsize, htrailing⟩
    simp only [hcursor] at htargets hsize htrailing
    rw [hnames, List.nil_append] at hnodup
    exact ⟨hexpr, htargets, hnodup, hsize,
      fun hfull => (foldl_waiting nodes).symm.trans (htrailing hfull)⟩
  · rintro ⟨hexpr, htargets, hnodup, hsize, htrailing⟩
    refine ⟨hexpr, ?_, hnodup, ?_, ?_⟩
    · simpa only [hcursor] using htargets
    · rw [hcursor]
      exact hsize
    · rw [hcursor]
      exact fun hfull => (foldl_waiting nodes).trans (htrailing hfull)

end Builder

/-- **A program is built exactly from an acceptable list.**  Nodes behind the
end node do not count. -/
theorem exists_build_iff (nodes : List Node) :
    (∃ p, build nodes = .ok p) ↔ Acceptable (nodes.takeWhile fun node => !node.isFinish) := by
  rw [← Builder.admits_start]
  exact Builder.exists_finish_iff Builder.start_valid _

end Mos6502
