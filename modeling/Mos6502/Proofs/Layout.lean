/-
Mos6502/Proofs/Layout.lean

The shape of a built program.  `LaidOut a code z` says that the expressions of
`code` stand one after the other, without gaps, from address `a` to address
`z`.  It is the one fact about addresses that all later arguments use: the
order of the expressions, that no two of them overlap, and that all of them
lie inside the section are read off from it.

`Program.WellFormed` is what every accepted list of nodes gives
(`build_wellFormed`).  It is proved by an invariant of the pass,
`Builder.Valid`, that each step keeps:

* the code placed so far is laid out from 0 to the cursor;
* the cursor has not left the address space;
* every expression placed is encodable;
* no label is declared twice, and every declared label lies at or before the
  cursor and inside the address space.

Labels that still wait are no part of the invariant: they get an address only
when they are declared.
-/
import Mathlib.Data.List.Nodup
import Mos6502.Program.Build
import Mos6502.Proofs.Selection

namespace Mos6502

/-! ### Layout -/

/-- Expressions that follow one another without gaps, from one address to
another. -/
inductive LaidOut : Nat → List Placed → Nat → Prop
  | nil (a : Nat) : LaidOut a [] a
  | cons {a z : Nat} {e : Expression} {rest : List Placed} :
      LaidOut (a + e.size) rest z → LaidOut a (⟨a, e⟩ :: rest) z

namespace LaidOut

variable {a m z : Nat} {code : List Placed}

theorem le (h : LaidOut a code z) : a ≤ z := by
  induction h with
  | nil => exact Nat.le_refl _
  | cons _ ih => omega

/-- One more expression at the end. -/
theorem snoc (h : LaidOut a code z) (e : Expression) :
    LaidOut a (code ++ [⟨z, e⟩]) (z + e.size) := by
  induction h with
  | nil a => exact .cons (.nil _)
  | cons _ ih => exact .cons ih

/-- Every expression lies between the two ends. -/
theorem bounds (h : LaidOut a code z) {i : Placed} (hi : i ∈ code) :
    a ≤ i.address ∧ i.address + i.expression.size ≤ z := by
  induction h with
  | nil => cases hi
  | cons hrest ih =>
    rcases List.mem_cons.mp hi with rfl | hi
    · exact ⟨Nat.le_refl _, hrest.le⟩
    · have := ih hi
      omega

/-- Each expression ends before the next ones begin. -/
theorem pairwise (h : LaidOut a code z) :
    code.Pairwise fun i j => i.address + i.expression.size ≤ j.address := by
  induction h with
  | nil => exact List.Pairwise.nil
  | cons hrest ih => exact List.Pairwise.cons (fun j hj => (hrest.bounds hj).1) ih

/-- Two expressions that are not the same do not overlap. -/
theorem eq_or_disjoint (h : LaidOut a code z) {i j : Placed} (hi : i ∈ code) (hj : j ∈ code) :
    i = j ∨ i.address + i.expression.size ≤ j.address ∨
      j.address + j.expression.size ≤ i.address := by
  induction h with
  | nil => cases hi
  | cons hrest ih =>
    rcases List.mem_cons.mp hi with rfl | hi <;> rcases List.mem_cons.mp hj with rfl | hj
    · exact .inl rfl
    · exact .inr (.inl (hrest.bounds hj).1)
    · exact .inr (.inr (hrest.bounds hi).1)
    · exact ih hi hj

/-- The first expression stands at the start, or start and end are the same. -/
theorem address_head (h : LaidOut a code z) : (code[0]?.map Placed.address).getD z = a := by
  cases h <;> rfl

/-- An expression ends where the next one stands, or at the end. -/
theorem address_next (h : LaidOut a code z) {k : Nat} {i : Placed} (hk : code[k]? = some i) :
    (code[k + 1]?.map Placed.address).getD z = i.address + i.expression.size := by
  induction h generalizing k with
  | nil => cases hk
  | @cons a z e rest hrest ih =>
    rw [List.getElem?_cons_succ]
    cases k with
    | zero =>
      cases hk
      exact hrest.address_head
    | succ k => exact ih hk

end LaidOut

/-! ### Programs -/

/-- What every built program satisfies. -/
structure Program.WellFormed (p : Program) : Prop where
  /-- The code fills the section. -/
  laidOut : LaidOut 0 p.code.toList p.size
  /-- The section fits the address space. -/
  size_le : p.size ≤ addressSpace
  encodable : ∀ i ∈ p.code.toList, i.expression.Encodable
  /-- No label is declared twice. -/
  nodup : p.labels.Nodup
  /-- A label lies in the section or at its end. -/
  symbol_le : ∀ s ∈ p.symbols.toList, s.address ≤ p.size
  /-- A label is an address. -/
  symbol_lt : ∀ s ∈ p.symbols.toList, s.address < addressSpace

/-- The same of a pass that is not over: the cursor stands for the end of the
section. -/
structure Builder.Valid (b : Builder) : Prop where
  laidOut : LaidOut 0 b.code.toList b.cursor
  cursor_le : b.cursor ≤ addressSpace
  encodable : ∀ i ∈ b.code.toList, i.expression.Encodable
  nodup : (b.symbols.toList.map Symbol.name).Nodup
  symbol_le : ∀ s ∈ b.symbols.toList, s.address ≤ b.cursor
  symbol_lt : ∀ s ∈ b.symbols.toList, s.address < addressSpace

namespace Builder

/-! ### Declaring labels -/

/-- The entry that a label gets. -/
def declared (address : Nat) (index : Option Nat) (label : PendingLabel) : Symbol :=
  ⟨label.name, address, index, label.line⟩

/-- A label is declared exactly if its name is new and its address in
range. -/
theorem define_eq_ok_iff {address : Nat} {index : Option Nat} {symbols symbols' : Array Symbol}
    {label : PendingLabel} :
    define address index symbols label = .ok symbols' ↔
      label.name ∉ symbols.toList.map Symbol.name ∧ address < addressSpace ∧
        symbols' = symbols.push (declared address index label) := by
  have hfind : (symbols.find? fun s => s.name == label.name) = none ↔
      label.name ∉ symbols.toList.map Symbol.name := by
    simp [Array.find?_eq_none]
  unfold define
  split
  · next first hfirst =>
    constructor
    · intro h
      cases h
    · rintro ⟨hnew, -⟩
      rw [hfind.mpr hnew] at hfirst
      cases hfirst
  · next hnone =>
    split
    · constructor
      · intro h
        cases h
      · rintro ⟨-, hlt, -⟩
        omega
    · constructor
      · intro h
        cases h
        exact ⟨hfind.mp hnone, by omega, rfl⟩
      · rintro ⟨-, -, rfl⟩
        rfl

/-- Several labels are declared exactly if all the names differ and their
common address is in range. -/
theorem defineAll_eq_ok_iff {address : Nat} {index : Option Nat} {symbols symbols' : Array Symbol}
    {labels : List PendingLabel} (hnodup : (symbols.toList.map Symbol.name).Nodup) :
    defineAll address index symbols labels = .ok symbols' ↔
      (symbols.toList.map Symbol.name ++ labels.map PendingLabel.name).Nodup ∧
        (labels ≠ [] → address < addressSpace) ∧
        symbols' = symbols ++ (labels.map (declared address index)).toArray := by
  unfold defineAll
  induction labels generalizing symbols with
  | nil =>
    rw [List.foldlM_nil]
    constructor
    · intro h
      cases h
      exact ⟨by simpa using hnodup, by simp, by simp⟩
    · rintro ⟨-, -, rfl⟩
      rfl
  | cons label rest ih =>
    -- the names after the first declaration are those before it and its own
    have hnames : (symbols.push (declared address index label)).toList.map Symbol.name =
        symbols.toList.map Symbol.name ++ [label.name] := by
      simp [declared]
    have hpush : ((symbols.push (declared address index label)).toList.map Symbol.name).Nodup ↔
        label.name ∉ symbols.toList.map Symbol.name := by
      rw [hnames, ← List.concat_eq_append, List.nodup_concat]
      exact ⟨fun h => h.1, fun h => ⟨h, hnodup⟩⟩
    have hsplit : symbols.toList.map Symbol.name ++ (label :: rest).map PendingLabel.name =
        (symbols.push (declared address index label)).toList.map Symbol.name ++
          rest.map PendingLabel.name := by
      rw [hnames, List.map_cons, List.append_assoc, List.singleton_append]
    rw [List.foldlM_cons, bind_eq_ok_iff, hsplit]
    constructor
    · rintro ⟨mid, hmid, hrest⟩
      obtain ⟨hnew, hlt, rfl⟩ := define_eq_ok_iff.mp hmid
      obtain ⟨hall, -, rfl⟩ := (ih (hpush.mpr hnew)).mp hrest
      exact ⟨hall, fun _ => hlt, by simp⟩
    · rintro ⟨hall, hlt, rfl⟩
      have hmid := (List.nodup_append.mp hall).1
      refine ⟨_, define_eq_ok_iff.mpr ⟨hpush.mp hmid, hlt (by simp), rfl⟩, ?_⟩
      exact (ih hmid).mpr ⟨hall, fun _ => hlt (by simp), by simp⟩

/-- Declared labels keep what the invariant says of labels, at any end that is
not before their address. -/
theorem defineAll_symbols {address z : Nat} {index : Option Nat} {symbols symbols' : Array Symbol}
    {labels : List PendingLabel} (hz : address ≤ z)
    (hnodup : (symbols.toList.map Symbol.name).Nodup)
    (hle : ∀ s ∈ symbols.toList, s.address ≤ address)
    (hlt : ∀ s ∈ symbols.toList, s.address < addressSpace)
    (h : defineAll address index symbols labels = .ok symbols') :
    (symbols'.toList.map Symbol.name).Nodup ∧ (∀ s ∈ symbols'.toList, s.address ≤ z) ∧
      ∀ s ∈ symbols'.toList, s.address < addressSpace := by
  obtain ⟨hall, hrange, rfl⟩ := (defineAll_eq_ok_iff hnodup).mp h
  have hmem : ∀ s ∈ (symbols ++ (labels.map (declared address index)).toArray).toList,
      s ∈ symbols.toList ∨ (s.address = address ∧ labels ≠ []) := by
    intro s hs
    rw [Array.toList_append, List.mem_append] at hs
    rcases hs with hs | hs
    · exact .inl hs
    · obtain ⟨label, hlabel, rfl⟩ := List.mem_map.mp hs
      exact .inr ⟨rfl, List.ne_nil_of_mem hlabel⟩
  refine ⟨?_, ?_, ?_⟩
  · have hnames : (labels.map (declared address index)).map Symbol.name =
        labels.map PendingLabel.name := by
      rw [List.map_map]
      rfl
    rw [Array.toList_append, List.map_append, hnames]
    exact hall
  · intro s hs
    rcases hmem s hs with hs | ⟨heq, -⟩
    · exact Nat.le_trans (hle s hs) hz
    · omega
  · intro s hs
    rcases hmem s hs with hs | ⟨heq, hne⟩
    · exact hlt s hs
    · rw [heq]
      exact hrange hne

/-! ### Placing expressions -/

/-- A resolved expression is encodable, and only its operand may have
changed. -/
theorem resolveTarget_spec {address : Nat} {e e' : Expression} (hsel : e.Selected)
    (h : resolveTarget address e = .ok e') :
    e'.Encodable ∧ e'.mnemonic = e.mnemonic ∧ e'.mode = e.mode ∧ e'.line = e.line := by
  unfold resolveTarget at h
  split at h
  · next n hn =>
    split at h
    · next d _ =>
      cases h
      obtain hfits | ⟨m, -, hmode⟩ := hsel.fits
      · rw [hn] at hfits
        cases hfits
      · refine ⟨⟨hsel.supported, ?_⟩, rfl, rfl, rfl⟩
        show Value.Fits e.mode (.number d.toUInt16)
        rw [hmode]
        refine ⟨by decide, ?_⟩
        rw [UInt8.toNat_toUInt16]
        exact d.toNat_lt
    · cases h
  · next hne =>
    cases h
    obtain hfits | ⟨m, hm, -⟩ := hsel.fits
    · exact ⟨⟨hsel.supported, hfits⟩, rfl, rfl, rfl⟩
    · exact absurd hm (hne m)

/-- An expression is placed exactly if its destination is in reach, its labels
can be declared and it ends inside the address space. -/
theorem place_eq_ok_iff {b b' : Builder} {line : Int} {labels : List Bytes} {e : Expression} :
    b.place line labels e = .ok b' ↔ ∃ e' symbols, resolveTarget b.cursor e = .ok e' ∧
      defineAll b.cursor (some b.code.size) b.symbols (b.pending.toList ++ pendingOf line labels) =
        .ok symbols ∧
      b.cursor + e'.size ≤ addressSpace ∧
      b' = ⟨b.code.push ⟨b.cursor, e'⟩, symbols, #[], b.cursor + e'.size⟩ := by
  unfold place
  rw [bind_eq_ok_iff]
  constructor
  · rintro ⟨e', he', h⟩
    obtain ⟨symbols, hsymbols, h⟩ := bind_eq_ok_iff.mp h
    dsimp only at h
    split at h
    · cases h
    · next hsize =>
      cases h
      exact ⟨e', symbols, he', hsymbols, by omega, rfl⟩
  · rintro ⟨e', symbols, he', hsymbols, hsize, rfl⟩
    refine ⟨e', he', bind_eq_ok_iff.mpr ⟨symbols, hsymbols, ?_⟩⟩
    rw [if_neg (by omega)]

/-! ### The invariant -/

theorem start_valid : start.Valid where
  laidOut := .nil 0
  cursor_le := by decide
  encodable := by simp [start]
  nodup := by simp [start]
  symbol_le := by simp [start]
  symbol_lt := by simp [start]

theorem place_valid {b b' : Builder} {line : Int} {labels : List Bytes} {e : Expression}
    (hb : b.Valid) (hsel : e.Selected) (h : b.place line labels e = .ok b') : b'.Valid := by
  obtain ⟨e', symbols, he', hsymbols, hsize, rfl⟩ := place_eq_ok_iff.mp h
  obtain ⟨henc, -⟩ := resolveTarget_spec hsel he'
  obtain ⟨hnodup, hle, hlt⟩ :=
    defineAll_symbols (Nat.le_add_right b.cursor e'.size) hb.nodup hb.symbol_le hb.symbol_lt hsymbols
  refine ⟨?_, hsize, ?_, hnodup, hle, hlt⟩
  · show LaidOut 0 (b.code.push ⟨b.cursor, e'⟩).toList (b.cursor + e'.size)
    rw [Array.toList_push]
    exact hb.laidOut.snoc e'
  · intro i hi
    rw [Array.toList_push, List.mem_append, List.mem_singleton] at hi
    rcases hi with hi | rfl
    · exact hb.encodable i hi
    · exact henc

/-- Every step of the pass keeps the invariant. -/
theorem step_valid {b b' : Builder} {node : Node} (hb : b.Valid) (h : b.step node = .ok b') :
    b'.Valid := by
  unfold step at h
  split at h
  · split at h
    · cases h
    · next hnode => exact place_valid hb (Expression.ofNode_spec hnode) h
  · -- labels on a line of their own only wait
    cases h
    exact ⟨hb.laidOut, hb.cursor_le, hb.encodable, hb.nodup, hb.symbol_le, hb.symbol_lt⟩
  · cases h
    exact hb
  · cases h
    exact hb

/-- Every run of the pass keeps the invariant. -/
theorem run_valid {b b' : Builder} {nodes : List Node} (hb : b.Valid)
    (h : b.run nodes = .ok b') : b'.Valid :=
  foldlM_invariant (fun _ hs hstep => step_valid hs hstep) hb h

/-- The pass can be ended exactly if the labels that still wait can be declared
behind the last instruction. -/
theorem finish_eq_ok_iff {b : Builder} {p : Program} (hb : b.Valid) :
    b.finish = .ok p ↔
      (b.symbols.toList.map Symbol.name ++ b.pending.toList.map PendingLabel.name).Nodup ∧
        (b.pending.toList ≠ [] → b.cursor < addressSpace) ∧
        p = ⟨b.code, b.symbols ++ (b.pending.toList.map (declared b.cursor none)).toArray,
          b.cursor⟩ := by
  unfold finish
  rw [bind_eq_ok_iff]
  constructor
  · rintro ⟨symbols, hsymbols, h⟩
    obtain ⟨hnodup, hlt, rfl⟩ := (defineAll_eq_ok_iff hb.nodup).mp hsymbols
    cases h
    exact ⟨hnodup, hlt, rfl⟩
  · rintro ⟨hnodup, hlt, rfl⟩
    exact ⟨_, (defineAll_eq_ok_iff hb.nodup).mpr ⟨hnodup, hlt, rfl⟩, rfl⟩

theorem finish_wellFormed {b : Builder} {p : Program} (hb : b.Valid) (h : b.finish = .ok p) :
    p.WellFormed := by
  unfold finish at h
  obtain ⟨symbols, hsymbols, h⟩ := bind_eq_ok_iff.mp h
  cases h
  obtain ⟨hnodup, hle, hlt⟩ :=
    defineAll_symbols (Nat.le_refl b.cursor) hb.nodup hb.symbol_le hb.symbol_lt hsymbols
  exact ⟨hb.laidOut, hb.cursor_le, hb.encodable, hnodup, hle, hlt⟩

end Builder

/-- A program is built exactly if the pass runs and can be ended. -/
theorem build_eq_ok_iff {nodes : List Node} {p : Program} :
    build nodes = .ok p ↔ ∃ b : Builder, b.Valid ∧
      Builder.start.run (nodes.takeWhile fun node => !node.isFinish) = .ok b ∧
        b.finish = .ok p := by
  rw [build, bind_eq_ok_iff]
  constructor
  · rintro ⟨b, hrun, hfinish⟩
    exact ⟨b, Builder.run_valid Builder.start_valid hrun, hrun, hfinish⟩
  · rintro ⟨b, -, hrun, hfinish⟩
    exact ⟨b, hrun, hfinish⟩

/-- **Every accepted list of nodes gives a well-formed program.** -/
theorem build_wellFormed {nodes : List Node} {p : Program} (h : build nodes = .ok p) :
    p.WellFormed := by
  obtain ⟨b, hb, -, hfinish⟩ := build_eq_ok_iff.mp h
  exact Builder.finish_wellFormed hb hfinish

end Mos6502
