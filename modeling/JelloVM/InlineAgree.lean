import JelloVM.ExecLoop

namespace JelloVM

open ByteMemory Logged

section Programs

variable (ctx : Ctx) (ins : JelloInsn)

/-- Two programs that end in the same way from every store, whatever they read on the way. -/
def SameResult {α : Type} (x y : StoreM α) : Prop := ∀ s, result x s = result y s

theorem SameResult.rfl {α : Type} (x : StoreM α) : SameResult x x := fun _ ↦ Eq.refl _

theorem SameResult.bind {α β : Type} {x y : StoreM α} {f g : α → StoreM β} (hx : SameResult x y)
    (hf : ∀ a, SameResult (f a) (g a)) : SameResult (x >>= f) (y >>= g) := by
  intro s
  rw [result_bind, result_bind, hx s]
  cases result y s with
  | error e => exact Eq.refl _
  | ok r => exact hf r.1 r.2

theorem SameResult.ite {α : Type} {c : Prop} [Decidable c] {x x' y y' : StoreM α}
    (hx : SameResult x x') (hy : SameResult y y') :
    SameResult (if c then x else y) (if c then x' else y') := by
  split_ifs
  · exact hx
  · exact hy

theorem inlineStore_eq (r : ℕ) (v : UInt32) (k : Kind) :
    inlineStore ctx r v k = vmStoreU32Masked ctx.rf r v k := by
  unfold inlineStore
  split_ifs with h
  · rw [h]
    rfl
  · rfl

theorem inlineBinI32_eq (e : UInt32 → UInt32 → UInt32) :
    inlineBinI32 e ctx ins = binI32Masked (fun a b ↦ some (e a b)) ctx ins := by
  simp only [inlineBinI32, binI32Masked, inlineStore_eq]

theorem inlineAddI32_eq : inlineAddI32 ctx ins = opAddI32 ctx ins := inlineBinI32_eq ctx ins _

theorem inlineSubI32_eq : inlineSubI32 ctx ins = opSubI32 ctx ins := inlineBinI32_eq ctx ins _

theorem inlineMulI32_eq : inlineMulI32 ctx ins = opMulI32 ctx ins := inlineBinI32_eq ctx ins _

theorem inlineBinI32Imm_eq (e : UInt32 → UInt32 → UInt32) :
    inlineBinI32Imm e ctx ins = binI32ImmMasked e ctx ins := by
  simp only [inlineBinI32Imm, binI32ImmMasked, inlineStore_eq]

theorem toInt32_add (a b : UInt32) : (a.toInt32 + b.toInt32).toUInt32 = a + b := rfl

theorem toInt32_sub (a b : UInt32) : (a.toInt32 - b.toInt32).toUInt32 = a - b := rfl

theorem inlineAddI32Imm_eq : inlineAddI32Imm ctx ins = opAddI32Imm ctx ins := by
  simp only [inlineAddI32Imm, opAddI32Imm, inlineBinI32Imm_eq, toInt32_add]

theorem inlineSubI32Imm_eq : inlineSubI32Imm ctx ins = opSubI32Imm ctx ins := by
  simp only [inlineSubI32Imm, opSubI32Imm, inlineBinI32Imm_eq, toInt32_sub]

theorem inlineMulI32Imm_eq : inlineMulI32Imm ctx ins = opMulI32Imm ctx ins :=
  inlineBinI32Imm_eq ctx ins _

theorem inlineNotBool_eq : inlineNotBool ctx ins = opNotBool ctx ins := by
  have hflag (x : UInt32) : (if x = 0 then (1 : UInt32) else 0) = flag (x == 0) := by
    by_cases h : x = 0 <;> simp [flag, h]
  simp only [inlineNotBool, opNotBool, un32, hflag]

theorem inlineObjGetAtom_eq : inlineObjGetAtom ctx ins = opObjGetAtom ctx ins := by
  simp only [inlineObjGetAtom, opObjGetAtom, ite_self]

theorem inlineObjSetAtom_eq : inlineObjSetAtom ctx ins = opObjSetAtom ctx ins := by
  simp only [inlineObjSetAtom, opObjSetAtom, ite_self]

/-- The register has kind F64 and the array register elements of kind F64. -/
def ElemsF64 (r arr : ℕ) : Prop :=
  let tid := ctx.fn.regType arr
  regKind ctx.m ctx.f r = .f64 ∧ tid < ctx.m.types.length ∧ (ctx.m.type tid).kind = .array ∧
    (ctx.m.type tid).param < ctx.m.types.length ∧
    (ctx.m.type (ctx.m.type tid).param).kind = .f64

instance (r arr : ℕ) : Decidable (ElemsF64 ctx r arr) := by
  unfold ElemsF64
  infer_instance

theorem result_vmRegKind (m : JelloBcModule) (f r : ℕ) (s : Store) :
    result (vmRegKind m f r) s = .ok (regKind m f r, s) := rfl

theorem result_inlineF64Fast (r arr : ℕ) (s : Store) :
    result (inlineF64Fast ctx r arr) s = .ok (decide (ElemsF64 ctx r arr), s) := by
  simp only [inlineF64Fast, regTypeOf, typeOf, result_bind, result_note, result_pure,
    Except.bind, result_vmRegKind, result_ite]
  unfold ElemsF64
  simp only [Ctx.fn]
  split_ifs with h1 h2 h3
  · obtain h1 | h1 := h1
    · simp [h1]
    · simp [Nat.not_lt.mpr h1]
  · simp [h2]
  · simp [Nat.not_lt.mpr h3]
  · push Not at h1 h2 h3
    simp [h1, h2, h3]

theorem result_bothF64 (r arr : ℕ) (s : Store) :
    result (bothF64 ctx r arr) s = .ok (decide (ElemsF64 ctx r arr), s) := by
  simp only [bothF64, arrayElemKind, elemKindOf, regTypeOf, typeOf, result_bind, result_note,
    result_pure, Except.bind, result_vmRegKind, result_ite]
  unfold ElemsF64
  simp only [Ctx.fn]
  have hk : regKind ctx.m ctx.f arr = (ctx.m.type ((ctx.m.func ctx.f).regType arr)).kind := rfl
  rw [hk]
  split_ifs with h1 h2 h3 h4 <;> simp_all

theorem inlineF64Fast_same (r arr : ℕ) : SameResult (inlineF64Fast ctx r arr) (bothF64 ctx r arr) :=
  fun s ↦ (result_inlineF64Fast ctx r arr s).trans (result_bothF64 ctx r arr s).symm

theorem inlineArrayGet_same : SameResult (inlineArrayGet ctx ins) (opArrayGet ctx ins) := by
  refine .bind (.rfl _) fun p ↦ .ite (.rfl _) (.bind (.rfl _) fun arr ↦ ?_)
  refine .bind (.rfl _) fun i ↦ .ite (.rfl _) ?_
  exact .bind (inlineF64Fast_same ctx _ _) fun fast ↦ .ite (.rfl _) (.rfl _)

theorem inlineArraySet_same : SameResult (inlineArraySet ctx ins) (opArraySet ctx ins) := by
  refine .bind (.rfl _) fun p ↦ .ite (.rfl _) (.bind (.rfl _) fun arr ↦ ?_)
  refine .bind (.rfl _) fun i ↦ .ite (.rfl _) ?_
  exact .bind (inlineF64Fast_same ctx _ _) fun fast ↦ .ite (.rfl _) (.rfl _)

/-- The cases of the loop and the handlers of `op_dispatch`. -/
theorem inlineOp_same {op : JelloOp} {x : Ctx → JelloInsn → StoreM Unit}
    (h : inlineOp op = some x) : SameResult (x ctx ins) (dataOp op ctx ins) := by
  cases op <;> simp only [inlineOp, Option.some.injEq, reduceCtorEq] at h <;> subst h
  case addI32 => exact inlineAddI32_eq ctx ins ▸ .rfl _
  case subI32 => exact inlineSubI32_eq ctx ins ▸ .rfl _
  case mulI32 => exact inlineMulI32_eq ctx ins ▸ .rfl _
  case addI32Imm => exact inlineAddI32Imm_eq ctx ins ▸ .rfl _
  case subI32Imm => exact inlineSubI32Imm_eq ctx ins ▸ .rfl _
  case mulI32Imm => exact inlineMulI32Imm_eq ctx ins ▸ .rfl _
  case notBool => exact inlineNotBool_eq ctx ins ▸ .rfl _
  case objGetAtom => exact inlineObjGetAtom_eq ctx ins ▸ .rfl _
  case objSetAtom => exact inlineObjSetAtom_eq ctx ins ▸ .rfl _
  case arrayGet => exact inlineArrayGet_same ctx ins
  case arraySet => exact inlineArraySet_same ctx ins
  -- the other cases repeat the handler or call it
  all_goals exact .rfl _

theorem labelOp_same (op : JelloOp) : SameResult (labelOp op ctx ins) (dataOp op ctx ins) := by
  cases op
  all_goals exact .rfl _

end Programs

variable (ex : Exec) (build : Build) (ins : JelloInsn)

theorem result_onCtx_congr {α : Type} {x y : Ctx → JelloInsn → StoreM α}
    (h : ∀ ctx, SameResult (x ctx ins) (y ctx ins)) (vm : VM) :
    result (onCtx ex x ins) vm = result (onCtx ex y ins) vm := by
  simp only [onCtx, onStore, result_bind, result_onPart]
  congr 1
  funext r
  rw [h (ex.ctx r.1) r.2.store]

theorem dispatched_same (op : JelloOp) (ctx : Ctx) :
    SameResult ((if build = .switch then dataOp op else labelOp op) ctx ins)
      (dataOp op ctx ins) := by
  split_ifs with h
  · exact .rfl _
  · exact labelOp_same ctx ins op

theorem result_andContinue {x y : Ctx → JelloInsn → StoreM Unit}
    (h : ∀ ctx, SameResult (x ctx ins) (y ctx ins)) (vm : VM) :
    result (do onCtx ex x ins; pure OpResult.continue_ : VMM OpResult) vm =
      result (do onCtx ex y ins; pure OpResult.continue_ : VMM OpResult) vm := by
  rw [result_bind, result_bind, result_onCtx_congr ex ins h vm]

/-- The instructions of which the loop has a version of its own that is not the subject here:
returns, jumps and calls. -/
def JelloOp.isTransfer : JelloOp → Bool
  | .ret | .jmp | .call | .callr | .tailcall | .tailcallr => true
  | _ => false

variable {ins}

theorem controls_of_inline {x : Ctx → JelloInsn → StoreM Unit} (hx : inlineOp ins.op = some x) :
    inlineControl ex ins = none ∧ controlOp ex build ins = none := by
  obtain ⟨op, a, b, c, imm⟩ := ins
  cases op <;> simp only [inlineOp, reduceCtorEq] at hx <;> exact ⟨rfl, rfl⟩

theorem inlineControl_agrees (h : ins.op.isTransfer = false) {x : VMM OpResult}
    (hx : inlineControl ex ins = some x) : controlOp ex build ins = some x := by
  obtain ⟨op, a, b, c, imm⟩ := ins
  cases op <;> simp only [inlineControl, reduceCtorEq] at hx <;>
    simp only [JelloOp.isTransfer, reduceCtorEq] at h
  case jmpIf => exact hx
  case assert => exact hx

/-- Without the instructions that transfer control to another function, what the loop does for
an instruction is what `op_dispatch` does, in both of its builds. -/
theorem inlineInsn_agrees (h : ins.op.isTransfer = false) (vm : VM) :
    result (inlineInsn ex build ins) vm = result (opDispatch ex build ins) vm := by
  cases hc : inlineControl ex ins with
  | some x =>
    simp only [inlineInsn, opDispatch, hc, inlineControl_agrees ex build h hc]
  | none =>
  cases hx : inlineOp ins.op with
  | some x =>
    have hsame (ctx : Ctx) : SameResult (x ctx ins)
        ((if build = .switch then dataOp ins.op else labelOp ins.op) ctx ins) := by
      intro s
      rw [inlineOp_same ctx ins hx s, dispatched_same build ins ins.op ctx s]
    simp only [inlineInsn, opDispatch, hc, hx, (controls_of_inline ex build hx).2]
    exact result_andContinue ex ins hsame vm
  | none => simp only [inlineInsn, hc, hx]

def addInsn : JelloInsn := { op := .addI32, a := 0, b := 1, c := 2, imm := 0 }

/-- One function, which adds two of its registers and returns the sum. -/
def addModule : JelloBcModule :=
  { features := default
    types := [⟨.i32, 0⟩]
    sigs := []
    atoms := []
    constI64 := []
    constF64 := []
    constBytes := []
    funcs :=
      [{ regTypes := [0, 0, 0]
         capStart := 0
         insns := [addInsn, { op := .ret, a := 0, b := 0, c := 0, imm := 0 }]
         sourceFile := 0
         lines := [] }]
    entry := 0
    sourceFiles := [] }

/-- In the first frame of a run. -/
theorem addInsn_agrees :
    Accepted addModule ∧ addInsn.op.isTransfer = false ∧
      ∃ vm, result (execEntry (.alone addModule)) jelloVmCreate = .ok (true, vm) ∧
        result (inlineInsn (.alone addModule) .computedGoto addInsn) vm =
          result (opDispatch (.alone addModule) .computedGoto addInsn) vm := by
  have hstart : (result (execEntry (.alone addModule)) jelloVmCreate).toOption.map
      (fun r ↦ r.1) = some true := by
    decide +kernel
  cases hr : result (execEntry (.alone addModule)) jelloVmCreate with
  | error e => simp [hr, Except.toOption] at hstart
  | ok r =>
    simp only [hr, Except.toOption, Option.map_some, Option.some.injEq] at hstart
    refine ⟨by decide +kernel, by decide, r.2, ?_,
      inlineInsn_agrees (.alone addModule) .computedGoto (by decide) r.2⟩
    rw [← hstart]

end JelloVM
