/-
Mos6502/Proofs/Renaming.lean

Labels are names and nothing else.  Renaming the labels of a list of nodes
renames them in the program and in the errors, and leaves everything else as
it was: modes, addresses, the bytes of the section and of every image.

What is renamed has to stay a name (`Renaming`).  Two labels may not become
one, a text with a dollar sign in front would be a literal, and the letter A
after a shift is the accumulator.

Every stage looks at a name only to compare it with others, so it commutes
with the renaming: a renamed input gives the renamed result, or the renamed
error (`mapBoth`).  The stages follow the order of the pipeline:

* `Expression.ofNode_rename` — the choice of a mode;
* `Builder.step_rename`, `build_rename` — the pass over the nodes;
* `Program.rawBytes_rename`, `Program.relocations_rename` — the section;
* `link_rename` — the linker, on any section.
-/
import Mathlib.Logic.Equiv.Basic
import Mos6502.Proofs.Faults

namespace Mos6502

/-! ### Computations put through functions -/

section Both

variable {ε δ α β γ σ τ : Type}

/-- Result and error of a computation, each put through a function. -/
def mapBoth (g : ε → δ) (h : α → β) : Except ε α → Except δ β
  | .error e => .error (g e)
  | .ok a => .ok (h a)

@[simp] theorem mapBoth_ok (g : ε → δ) (h : α → β) (a : α) : mapBoth g h (.ok a) = .ok (h a) :=
  rfl

@[simp] theorem mapBoth_error (g : ε → δ) (h : α → β) (e : ε) :
    mapBoth g h (.error e) = .error (g e) :=
  rfl

theorem mapBoth_id (g : ε → δ) (x : Except ε α) : mapBoth g id x = x.mapError g := by
  cases x <;> rfl

theorem bind_mapBoth {g : ε → δ} {h : α → β} {h' : γ → σ} {k : α → Except ε γ}
    {k' : β → Except δ σ} (x : Except ε α) (hk : ∀ a, k' (h a) = mapBoth g h' (k a)) :
    mapBoth g h x >>= k' = mapBoth g h' (x >>= k) := by
  rcases x with e | a
  · rfl
  · exact hk a

theorem foldlM_mapBoth {step : σ → α → Except ε σ} {step' : τ → β → Except δ τ} {g : ε → δ}
    {h : σ → τ} {r : α → β} (hstep : ∀ s a, step' (h s) (r a) = mapBoth g h (step s a))
    (l : List α) (s : σ) : (l.map r).foldlM step' (h s) = mapBoth g h (l.foldlM step s) := by
  induction l generalizing s with
  | nil => rfl
  | cons a rest ih =>
    rw [List.map_cons, List.foldlM_cons, List.foldlM_cons, hstep]
    exact bind_mapBoth _ ih

theorem mapM_mapBoth {k : α → Except ε γ} {k' : β → Except δ γ} {g : ε → δ} {r : α → β}
    (hk : ∀ a, k' (r a) = mapBoth g id (k a)) (l : List α) :
    (l.map r).mapM k' = mapBoth g id (l.mapM k) := by
  induction l with
  | nil => rfl
  | cons a rest ih =>
    rw [List.map_cons, List.mapM_cons, List.mapM_cons, hk]
    apply bind_mapBoth
    intro c
    rw [ih]
    exact bind_mapBoth _ fun _ => rfl

end Both

/-! ### Renamings -/

/-- Whether an operand text is a literal and no name. -/
def isLiteral (text : Bytes) : Bool :=
  text.head? == some 0x24

/-- A way to rename labels: no two become one, no label becomes a literal, and
the names of the accumulator stay. -/
structure Renaming (f : Bytes → Bytes) : Prop where
  injective : Function.Injective f
  label : ∀ name, isLiteral name = false → isLiteral (f name) = false
  upper : f (ascii "A") = ascii "A"
  lower : f (ascii "a") = ascii "a"

section Renamed

variable (f : Bytes → Bytes)

/-- An operand text renamed: a literal stays. -/
def renameText (text : Bytes) : Bytes :=
  if isLiteral text then text else f text

def Operand.rename (o : Operand) : Operand :=
  { o with value := renameText f o.value }

/-- A node with its labels and its operand renamed. -/
def Node.rename : Node → Node
  | .instruction line labels mnemonic operand =>
    .instruction line (labels.map f) mnemonic (operand.map (Operand.rename f))
  | .label line labels => .label line (labels.map f)
  | .finish line => .finish line
  | .other line => .other line

def Value.rename : Value → Value
  | .none => .none
  | .number n => .number n
  | .label name => .label (f name)
  | .target n => .target n

def Expression.rename (e : Expression) : Expression :=
  { e with operand := e.operand.rename f }

def Placed.rename (i : Placed) : Placed :=
  { i with expression := i.expression.rename f }

def Symbol.rename (s : Symbol) : Symbol :=
  { s with name := f s.name }

/-- A program with its operands and its symbol table renamed. -/
def Program.rename (p : Program) : Program :=
  ⟨p.code.map (Placed.rename f), p.symbols.map (Symbol.rename f), p.size⟩

def PendingLabel.rename (label : PendingLabel) : PendingLabel :=
  { label with name := f label.name }

def Builder.rename (b : Builder) : Builder :=
  ⟨b.code.map (Placed.rename f), b.symbols.map (Symbol.rename f),
    b.pending.map (PendingLabel.rename f), b.cursor⟩

def Relocation.rename (r : Relocation) : Relocation :=
  { r with symbol := f r.symbol }

def SymbolMap.rename (symbols : SymbolMap) : SymbolMap :=
  symbols.map fun (name, value) => (f name, value)

def Section.rename (s : Section) : Section :=
  ⟨s.raw, s.relocations.map (Relocation.rename f), s.symbols.rename f⟩

def SymbolError.rename (e : SymbolError) : SymbolError :=
  { e with symbol := f e.symbol }

/-- A build error renamed.  The branch destination that is out of reach is a
literal, so this error names no label. -/
def BuildError.rename : BuildError → BuildError
  | .expression cause => .expression cause
  | .symbol cause =>
    .symbol (if cause.fault = .branchOutOfRange then cause else cause.rename f)
  | .sectionTooLarge line => .sectionTooLarge line

def EmitError.rename : EmitError → EmitError
  | .unsupported line mnemonic mode => .unsupported line mnemonic mode
  | .symbol cause => .symbol (cause.rename f)

def LinkError.rename : LinkError → LinkError
  | .emit cause => .emit (cause.rename f)
  | .overrun length origin => .overrun length origin
  | .symbol cause => .symbol (cause.rename f)
  | .outside r length => .outside (r.rename f) length
  | .unknownKind number => .unknownKind number

end Renamed

variable {f : Bytes → Bytes}

/-- Names are compared with the same result after the renaming. -/
theorem Renaming.beq (hf : Renaming f) (x y : Bytes) : (f x == f y) = (x == y) := by
  apply Bool.eq_iff_iff.mpr
  simp only [beq_iff_eq]
  exact ⟨fun h => hf.injective h, fun h => congrArg f h⟩

theorem Renaming.isAccumulator (hf : Renaming f) (x : Bytes) :
    isAccumulator (f x) = isAccumulator x := by
  have hupper : (f x == [0x41]) = (x == [0x41]) := by
    rw [← hf.beq x [0x41]]
    exact congrArg (f x == ·) hf.upper.symm
  have hlower : (f x == [0x61]) = (x == [0x61]) := by
    rw [← hf.beq x [0x61]]
    exact congrArg (f x == ·) hf.lower.symm
  rw [Mos6502.isAccumulator, hupper, hlower, Mos6502.isAccumulator]

/-! ### The choice of a mode -/

theorem OperandText.classify_name {text : Bytes} (h : isLiteral text = false) :
    classify text = .ok (.label text) := by
  apply classify_eq_ok_iff.mpr
  refine .label ?_
  simpa [isLiteral] using h

theorem OperandText.classify_literal {text : Bytes} (h : isLiteral text = true) {t : OperandText}
    (ht : classify text = .ok t) : ∃ n, t = .short n ∨ t = .long n := by
  cases classify_eq_ok_iff.mp ht with
  | label hname => exact absurd (by simpa [isLiteral] using h) hname
  | short => exact ⟨_, .inl rfl⟩
  | long => exact ⟨_, .inr rfl⟩

/-- No literal is taken for a label. -/
theorem select_literal {mnemonic : Mnemonic} {o : Operand} (h : isLiteral o.value = true)
    {mode : Mode} {value : Value} (hs : select mnemonic o = .ok (mode, value)) :
    value.rename f = value := by
  unfold select at hs
  split at hs
  · cases hs
    rfl
  · obtain ⟨text, htext, hs⟩ := bind_eq_ok_iff.mp hs
    obtain ⟨form, digits, index, raw⟩ := o
    obtain ⟨n, rfl | rfl⟩ := OperandText.classify_literal h htext
    · cases form <;> cases hs <;> rfl
    · -- only a bare literal of a branch is a destination
      cases form <;> simp only [modeOf] at hs
      case bare => split at hs <;> cases hs <;> rfl
      case indexed | indirect =>
        cases hs
        rfl
      case immediate | indexedIndirect | indirectIndexed | other => cases hs

/-- A name is taken for a label in every form, or for the accumulator. -/
theorem select_name (hf : Renaming f) (mnemonic : Mnemonic) {o : Operand}
    (h : isLiteral o.value = false) :
    select mnemonic { o with value := f o.value } =
      mapBoth id (Prod.map id (Value.rename f)) (select mnemonic o) := by
  unfold select
  dsimp only
  rw [hf.isAccumulator, OperandText.classify_name h, OperandText.classify_name (hf.label _ h)]
  split
  · rfl
  · show modeOf mnemonic _ (.label (f o.value)) = mapBoth _ _ (modeOf mnemonic o (.label o.value))
    obtain ⟨form, name, index, raw⟩ := o
    cases form <;> rfl

theorem select_rename (hf : Renaming f) (mnemonic : Mnemonic) (o : Operand) :
    select mnemonic (o.rename f) =
      mapBoth id (Prod.map id (Value.rename f)) (select mnemonic o) := by
  rcases h : isLiteral o.value
  · rw [Operand.rename, renameText, h]
    exact select_name hf mnemonic h
  · have hsame : o.rename f = o := by
      rw [Operand.rename, renameText, h]
      rfl
    rw [hsame]
    rcases hs : select mnemonic o with e | ⟨mode, value⟩
    · rfl
    · rw [mapBoth_ok, Prod.map, select_literal h hs]
      rfl

/-- **The choice of a mode does not look at names.** -/
theorem Expression.ofNode_rename (hf : Renaming f) (node : Node) :
    ofNode (node.rename f) = mapBoth id (Expression.rename f) (ofNode node) := by
  cases node with
  | instruction line labels name operand =>
    have hselect : ∀ mnemonic, selectOptional mnemonic (operand.map (Operand.rename f)) =
        mapBoth id (Prod.map id (Value.rename f)) (selectOptional mnemonic operand) := by
      intro mnemonic
      cases operand with
      | none => rfl
      | some o => exact select_rename hf mnemonic o
    simp only [Node.rename, ofNode]
    rcases hname : Mnemonic.ofName? name with - | mnemonic
    · rfl
    · dsimp only
      rw [hselect]
      rcases selectOptional mnemonic operand with e | ⟨mode, value⟩
      · rfl
      · dsimp only [mapBoth_ok, Prod.map, id]
        split
        · rfl
        · rfl
  | label => rfl
  | finish => rfl
  | other => rfl

/-! ### The pass -/

namespace Builder

theorem find?_rename (hf : Renaming f) (symbols : Array Symbol) (name : Bytes) :
    ((symbols.map (Symbol.rename f)).find? fun s => s.name == f name) =
      (symbols.find? fun s => s.name == name).map (Symbol.rename f) := by
  rw [Array.find?_map]
  congr 2
  funext s
  exact hf.beq s.name name

/-- A label is found to be declared under its new name, or is declared under
it. -/
theorem define_rename (hf : Renaming f) (address : Nat) (index : Option Nat)
    (symbols : Array Symbol) (label : PendingLabel) :
    define address index (symbols.map (Symbol.rename f)) (label.rename f) =
      mapBoth (BuildError.rename f) (Array.map (Symbol.rename f))
        (define address index symbols label) := by
  unfold define
  rw [show (label.rename f).name = f label.name from rfl, find?_rename hf]
  rcases hfirst : symbols.find? fun s => s.name == label.name with - | first <;> rw [hfirst]
  · dsimp only [Option.map_none]
    split
    · rfl
    · simp [Symbol.rename, PendingLabel.rename]
  · rfl

theorem defineAll_rename (hf : Renaming f) (address : Nat) (index : Option Nat)
    (symbols : Array Symbol) (labels : List PendingLabel) :
    defineAll address index (symbols.map (Symbol.rename f)) (labels.map (PendingLabel.rename f)) =
      mapBoth (BuildError.rename f) (Array.map (Symbol.rename f))
        (defineAll address index symbols labels) :=
  foldlM_mapBoth (define_rename hf address index) labels symbols

/-- The destination of a branch is no name. -/
theorem resolveTarget_rename (address : Nat) (e : Expression) :
    resolveTarget address (e.rename f) =
      mapBoth (BuildError.rename f) (Expression.rename f) (resolveTarget address e) := by
  unfold resolveTarget
  rcases he : e.operand with - | n | name | n <;>
    simp only [Expression.rename, he, Value.rename, mapBoth_ok]
  rcases displacement n.toNat address with distance | d <;> rfl

theorem pendingOf_rename (line : Int) (labels : List Bytes) :
    pendingOf line (labels.map f) = (pendingOf line labels).map (PendingLabel.rename f) := by
  simp [pendingOf, PendingLabel.rename]

theorem place_rename (hf : Renaming f) (b : Builder) (line : Int) (labels : List Bytes)
    (e : Expression) :
    (b.rename f).place line (labels.map f) (e.rename f) =
      mapBoth (BuildError.rename f) (Builder.rename f) (b.place line labels e) := by
  unfold place
  rw [show (b.rename f).cursor = b.cursor from rfl, resolveTarget_rename]
  apply bind_mapBoth
  intro e'
  have hall : (b.rename f).pending.toList ++ pendingOf line (labels.map f) =
      (b.pending.toList ++ pendingOf line labels).map (PendingLabel.rename f) := by
    simp [Builder.rename, pendingOf_rename]
  have hsize : (b.rename f).code.size = b.code.size := Array.size_map
  dsimp only
  rw [hall, hsize, show (b.rename f).symbols = b.symbols.map (Symbol.rename f) from rfl,
    defineAll_rename hf]
  apply bind_mapBoth
  intro symbols
  -- a renamed expression is as long as before
  rw [show (e'.rename f).size = e'.size from rfl]
  split
  · rfl
  · simp [Builder.rename, Placed.rename]

/-- **A step on a renamed node does to the renamed state what it did before.** -/
theorem step_rename (hf : Renaming f) (b : Builder) (node : Node) :
    (b.rename f).step (node.rename f) =
      mapBoth (BuildError.rename f) (Builder.rename f) (b.step node) := by
  cases node with
  | instruction line labels name operand =>
    have hnode := Expression.ofNode_rename hf (.instruction line labels name operand)
    rw [Node.rename] at hnode ⊢
    simp only [step, hnode]
    rcases Expression.ofNode (.instruction line labels name operand) with cause | e
    · rfl
    · exact place_rename hf b line labels e
  | label line labels =>
    simp [step, Node.rename, Builder.rename, pendingOf_rename]
  | finish line => rfl
  | other line => rfl

theorem finish_rename (hf : Renaming f) (b : Builder) :
    (b.rename f).finish = mapBoth (BuildError.rename f) (Program.rename f) b.finish := by
  unfold finish
  have hpending : (b.rename f).pending.toList = b.pending.toList.map (PendingLabel.rename f) := by
    simp [Builder.rename]
  rw [hpending, show (b.rename f).cursor = b.cursor from rfl,
    show (b.rename f).symbols = b.symbols.map (Symbol.rename f) from rfl, defineAll_rename hf]
  exact bind_mapBoth _ fun _ => rfl

end Builder

/-- **Renamed nodes give the renamed program**, or the renamed error. -/
theorem build_rename (hf : Renaming f) (nodes : List Node) :
    build (nodes.map (Node.rename f)) =
      mapBoth (BuildError.rename f) (Program.rename f) (build nodes) := by
  have hbody : (nodes.map (Node.rename f)).takeWhile (fun node => !node.isFinish) =
      (nodes.takeWhile fun node => !node.isFinish).map (Node.rename f) := by
    rw [List.takeWhile_map]
    congr 2
    funext node
    cases node <;> rfl
  have hstart : Builder.start = Builder.start.rename f := by
    simp [Builder.rename, Builder.start]
  unfold build Builder.run
  rw [hbody, hstart, foldlM_mapBoth (Builder.step_rename hf), ← hstart]
  exact bind_mapBoth _ fun b => Builder.finish_rename hf b

/-! ### The section -/

namespace Program

variable (p : Program)

theorem symbol?_rename (hf : Renaming f) (name : Bytes) :
    (p.rename f).symbol? (f name) = (p.symbol? name).map (Symbol.rename f) :=
  Builder.find?_rename hf p.symbols name

theorem branchByte_rename (hf : Renaming f) (i : Placed) :
    (p.rename f).branchByte (i.rename f) =
      mapBoth (SymbolError.rename f) id (p.branchByte i) := by
  unfold branchByte
  rcases he : i.expression.operand with - | n | name | n <;>
    simp only [Placed.rename, Expression.rename, he, Value.rename, mapBoth_ok, id, Value.numberPart]
  rw [symbol?_rename p hf]
  rcases p.symbol? name with - | s
  · rfl
  · simp only [Option.map_some, Symbol.rename]
    rcases displacement s.address i.address with distance | d <;> rfl

theorem emit_rename (hf : Renaming f) (i : Placed) :
    (p.rename f).emit (i.rename f) = mapBoth (EmitError.rename f) id (p.emit i) := by
  have hoperand : operandBytes i.expression.mode (i.expression.operand.rename f) =
      operandBytes i.expression.mode i.expression.operand := by
    cases i.expression.mode <;> cases i.expression.operand <;> rfl
  unfold emit
  rw [branchByte_rename p hf]
  simp only [Placed.rename, Expression.rename, Expression.opcode?, hoperand]
  rcases Opcode.encode? i.expression.mnemonic i.expression.mode with - | opcode
  · rfl
  · dsimp only
    split
    · rcases p.branchByte i with cause | d <;> rfl
    · rfl

theorem rawBytes_rename (hf : Renaming f) :
    (p.rename f).rawBytes = mapBoth (EmitError.rename f) id p.rawBytes := by
  unfold rawBytes
  rw [show (p.rename f).code = p.code.map (Placed.rename f) from rfl, Array.toList_map,
    mapM_mapBoth (emit_rename p hf)]
  exact bind_mapBoth _ fun _ => rfl

theorem relocations_rename :
    (p.rename f).relocations = p.relocations.map (Relocation.rename f) := by
  unfold relocations
  rw [show (p.rename f).code = p.code.map (Placed.rename f) from rfl, Array.toList_map,
    List.filterMap_map, List.map_filterMap]
  congr 1
  funext i
  rcases he : i.expression.operand with - | n | name | n <;>
    simp [relocation?, Placed.rename, Expression.rename, Relocation.rename, he, Value.rename]

theorem symbolMap_rename : (p.rename f).symbolMap = p.symbolMap.rename f := by
  simp [symbolMap, SymbolMap.rename, Program.rename, Symbol.rename]

end Program

/-! ### Linking -/

theorem SymbolMap.lookup_rename (hf : Renaming f) (symbols : SymbolMap) (name : Bytes) :
    (symbols.rename f).lookup (f name) = symbols.lookup name := by
  induction symbols with
  | nil => rfl
  | cons entry rest ih =>
    show ((f entry.1, entry.2) :: SymbolMap.rename f rest).lookup (f name) = _
    rw [List.lookup_cons, List.lookup_cons, hf.beq, ih]

/-- What a name is worth does not depend on the name. -/
theorem resolve?_rename (hf : Renaming f) (origin : UInt16) (symbols externs : SymbolMap)
    (name : Bytes) :
    resolve? origin (symbols.rename f) (externs.rename f) (f name) =
      resolve? origin symbols externs name := by
  unfold resolve?
  rw [SymbolMap.lookup_rename hf, SymbolMap.lookup_rename hf]

theorem patchBytes_rename (origin : UInt16) (r : Relocation) (value : UInt16) :
    patchBytes origin (r.rename f) value =
      mapBoth (LinkError.rename f) id (patchBytes origin r value) := by
  unfold patchBytes
  rcases hkind : r.kind <;> simp only [Relocation.rename, hkind]
  · split <;> rfl
  · rfl
  · rfl
  · split <;> rfl
  · rfl

theorem applyRelocation_rename (hf : Renaming f) (origin : UInt16) (symbols externs : SymbolMap)
    (image : Array UInt8) (r : Relocation) :
    applyRelocation origin (symbols.rename f) (externs.rename f) image (r.rename f) =
      mapBoth (LinkError.rename f) id (applyRelocation origin symbols externs image r) := by
  unfold applyRelocation
  rw [show (r.rename f).symbol = f r.symbol from rfl, resolve?_rename hf]
  rcases resolve? origin symbols externs r.symbol with - | value
  · rfl
  · dsimp only
    rw [show (r.rename f).offset = r.offset from rfl, show (r.rename f).kind = r.kind from rfl,
      patchBytes_rename]
    split
    · rfl
    · rcases patchBytes origin r value with e | bytes <;> rfl

/-- **A renamed section is linked with renamed externs as before.** -/
theorem link_rename (hf : Renaming f) (s : Section) (origin : UInt16) (externs : SymbolMap) :
    link (s.rename f) origin (externs.rename f) =
      mapBoth (LinkError.rename f) id (link s origin externs) := by
  unfold link
  rw [show (s.rename f).raw = s.raw from rfl]
  split
  · rfl
  · show (s.relocations.map (Relocation.rename f)).foldlM
      (applyRelocation origin (s.symbols.rename f) (externs.rename f)) (id s.raw.toArray) >>= _ = _
    rw [foldlM_mapBoth (applyRelocation_rename hf origin s.symbols externs)]
    exact bind_mapBoth _ fun _ => rfl

namespace Program

variable (p : Program)

theorem toSection_rename (hf : Renaming f) :
    (p.rename f).toSection = mapBoth (EmitError.rename f) (Section.rename f) p.toSection := by
  unfold toSection
  rw [rawBytes_rename p hf, relocations_rename, symbolMap_rename]
  exact bind_mapBoth _ fun _ => rfl

theorem link_rename (hf : Renaming f) (origin : UInt16) (externs : SymbolMap) :
    (p.rename f).link origin (externs.rename f) =
      mapBoth (LinkError.rename f) id (p.link origin externs) := by
  unfold link
  rw [toSection_rename p hf]
  rcases p.toSection with cause | s
  · rfl
  · exact Mos6502.link_rename hf s origin externs

/-- A renamed error of a built program is of the same class. -/
theorem fault_rename {p : Program} (hp : p.WellFormed) {origin : UInt16} {externs : SymbolMap}
    {e : LinkError} (h : p.link origin externs = .error e) : (e.rename f).fault = e.fault := by
  rcases link_fault hp h with ⟨cause, rfl, -⟩ | ⟨length, rfl⟩ | ⟨cause, rfl, -⟩
  · cases cause <;> rfl
  · rfl
  · rfl

end Program

theorem BuildError.fault_rename (e : BuildError) : (e.rename f).fault = e.fault := by
  cases e with
  | expression => rfl
  | symbol cause =>
    show (if cause.fault = .branchOutOfRange then cause else cause.rename f).fault = cause.fault
    split <;> rfl
  | sectionTooLarge => rfl

/-! ### From nodes to an image -/

/-- **Label names do not influence the code.**  Renamed nodes are refused for
the same kind of fault, or give a program with the same addresses, the renamed
expressions and the renamed symbol table.  Its bytes are the same, and so is
its image at every origin, with the externs renamed as well; where there is
none, the error is the same up to the name in it. -/
theorem build_link_rename {f : Bytes → Bytes} (hf : Renaming f) (nodes : List Node) :
    (∀ e, build nodes = .error e →
      ∃ e', build (nodes.map (Node.rename f)) = .error e' ∧ e'.fault = e.fault) ∧
    ∀ p, build nodes = .ok p → ∃ q, build (nodes.map (Node.rename f)) = .ok q ∧
      q.expressions = p.expressions.map (Expression.rename f) ∧
      q.addresses = p.addresses ∧ q.size = p.size ∧
      q.symbols = p.symbols.map (Symbol.rename f) ∧
      q.rawBytes = p.rawBytes.mapError (EmitError.rename f) ∧
      ∀ (origin : UInt16) (externs : SymbolMap),
        q.link origin (externs.rename f) = (p.link origin externs).mapError (LinkError.rename f) ∧
        ∀ e, p.link origin externs = .error e → (e.rename f).fault = e.fault := by
  have hbuild := build_rename hf nodes
  refine ⟨?_, ?_⟩
  · intro e he
    rw [he, mapBoth_error] at hbuild
    exact ⟨_, hbuild, e.fault_rename⟩
  · intro p hp
    rw [hp, mapBoth_ok] at hbuild
    refine ⟨p.rename f, hbuild, ?_, ?_, rfl, rfl, ?_, ?_⟩
    · simp [Program.expressions, Program.rename, Placed.rename]
    · simp [Program.addresses, Program.rename, Placed.rename, Function.comp_def]
    · rw [p.rawBytes_rename hf, mapBoth_id]
    · intro origin externs
      refine ⟨?_, fun e he => Program.fault_rename (build_wellFormed hp) he⟩
      rw [p.link_rename hf, mapBoth_id]

/-- Two names of labels, exchanged. -/
theorem renaming_swap {a b : Bytes} (ha : isLiteral a = false) (hb : isLiteral b = false)
    (ha' : isAccumulator a = false) (hb' : isAccumulator b = false) :
    Renaming (Equiv.swap a b) := by
  have hkeep : ∀ x, isAccumulator x = true → Equiv.swap a b x = x := by
    intro x hx
    apply Equiv.swap_apply_of_ne_of_ne
    · rintro rfl
      rw [hx] at ha'
      cases ha'
    · rintro rfl
      rw [hx] at hb'
      cases hb'
  refine ⟨Equiv.injective _, ?_, hkeep _ (by decide +kernel), hkeep _ (by decide +kernel)⟩
  intro name hname
  rw [Equiv.swap_apply_def]
  split
  · exact hb
  · split
    · exact ha
    · exact hname

/-- A declared label and an extern exchange their names, beside the accumulator
and a literal. -/
theorem build_link_rename_exchanged :
    ∃ p q, build
      [.instruction 1 [ascii "loop"] (ascii "LDA")
         (some ⟨.immediate, ascii "port", 0, ascii "#port"⟩),
       .instruction 2 [] (ascii "ASL") (some ⟨.bare, ascii "A", 0, ascii "A"⟩),
       .instruction 3 [] (ascii "STA") (some ⟨.indexed, ascii "$0400", 0x58, ascii "$0400,X"⟩),
       .instruction 4 [] (ascii "BNE") (some ⟨.bare, ascii "loop", 0, ascii "loop"⟩)] = .ok p ∧
      p.link 0x8000 [(ascii "port", 0x0012)] =
        .ok [0xA9, 0x12, 0x0A, 0x9D, 0x00, 0x04, 0xD0, 0xF8] ∧
      build
      [.instruction 1 [ascii "port"] (ascii "LDA")
         (some ⟨.immediate, ascii "loop", 0, ascii "#port"⟩),
       .instruction 2 [] (ascii "ASL") (some ⟨.bare, ascii "A", 0, ascii "A"⟩),
       .instruction 3 [] (ascii "STA") (some ⟨.indexed, ascii "$0400", 0x58, ascii "$0400,X"⟩),
       .instruction 4 [] (ascii "BNE") (some ⟨.bare, ascii "port", 0, ascii "loop"⟩)] = .ok q ∧
      q.symbols = p.symbols.map (Symbol.rename (Equiv.swap (ascii "loop") (ascii "port"))) ∧
      q.link 0x8000 [(ascii "loop", 0x0012)] =
        .ok [0xA9, 0x12, 0x0A, 0x9D, 0x00, 0x04, 0xD0, 0xF8] := by
  have hf : Renaming (Equiv.swap (ascii "loop") (ascii "port")) :=
    renaming_swap (by decide +kernel) (by decide +kernel) (by decide +kernel) (by decide +kernel)
  have hbuild : build
      [.instruction 1 [ascii "loop"] (ascii "LDA")
         (some ⟨.immediate, ascii "port", 0, ascii "#port"⟩),
       .instruction 2 [] (ascii "ASL") (some ⟨.bare, ascii "A", 0, ascii "A"⟩),
       .instruction 3 [] (ascii "STA") (some ⟨.indexed, ascii "$0400", 0x58, ascii "$0400,X"⟩),
       .instruction 4 [] (ascii "BNE") (some ⟨.bare, ascii "loop", 0, ascii "loop"⟩)] =
      .ok ⟨#[⟨0, .lda, .immediate, .label (ascii "port"), 1⟩, ⟨2, .asl, .accumulator, .none, 2⟩,
        ⟨3, .sta, .absoluteX, .number 0x0400, 3⟩, ⟨6, .bne, .relative, .label (ascii "loop"), 4⟩],
        #[⟨ascii "loop", 0, some 0, 1⟩], 8⟩ := by
    decide +kernel
  have hlink : Program.link ⟨#[⟨0, .lda, .immediate, .label (ascii "port"), 1⟩,
        ⟨2, .asl, .accumulator, .none, 2⟩, ⟨3, .sta, .absoluteX, .number 0x0400, 3⟩,
        ⟨6, .bne, .relative, .label (ascii "loop"), 4⟩],
        #[⟨ascii "loop", 0, some 0, 1⟩], 8⟩ 0x8000 [(ascii "port", 0x0012)] =
      .ok [0xA9, 0x12, 0x0A, 0x9D, 0x00, 0x04, 0xD0, 0xF8] := by
    decide +kernel
  have hexterns : SymbolMap.rename (Equiv.swap (ascii "loop") (ascii "port"))
      [(ascii "port", 0x0012)] = [(ascii "loop", 0x0012)] := by
    decide +kernel
  obtain ⟨q, hq, -, -, -, hsymbols, -, hlinked⟩ := (build_link_rename hf _).2 _ hbuild
  refine ⟨_, q, hbuild, hlink, hq, hsymbols, ?_⟩
  rw [← hexterns, (hlinked 0x8000 _).1, hlink]
  rfl

end Mos6502
