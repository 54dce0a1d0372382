import JelloVM.Jit.EncoderSpec

namespace JelloVM

open X64

inductive Encoder
  | movRr (dst src : Gpr)
  | movR32Imm (dst : Gpr) (imm : UInt32)
  | movR64Imm (dst : Gpr) (imm : UInt64)
  | loadR32Disp (dst base : Gpr) (disp : UInt32)
  | storeR32Disp (src base : Gpr) (disp : UInt32)
  | loadR64Disp (dst base : Gpr) (disp : UInt32)
  | storeR64Disp (src base : Gpr) (disp : UInt32)
  | addRr (dst src : Gpr)
  | subRr (dst src : Gpr)
  | xorR64 (dst src : Gpr)
  | cmpR64Rr (dst src : Gpr)
  | testR64 (dst src : Gpr)
  | xorR32 (dst src : Gpr)
  | testRr (dst src : Gpr)
  | movR32Rr (dst src : Gpr)
  | addR32Rr (dst src : Gpr)
  | andR32Rr (dst src : Gpr)
  | subR32Rr (dst src : Gpr)
  | cmpR32Rr (dst src : Gpr)
  | x64CmpR32Rr (lhs rhs : Gpr)
  | imulR32 (dst src : Gpr)
  | imulR64 (dst src : Gpr)
  | subR64Imm8 (dst : Gpr) (imm : UInt8)
  | negR64 (dst : Gpr)
  | negR32 (dst : Gpr)
  | cmpR32Imm0 (reg : Gpr)
  | addR32Imm (dst : Gpr) (imm : UInt32)
  | andR32Imm (dst : Gpr) (imm : UInt32)
  | orR32Imm (dst : Gpr) (imm : UInt32)
  | subR32Imm (dst : Gpr) (imm : UInt32)
  | cmpR32Imm (dst : Gpr) (imm : UInt32)
  | orR64Imm (dst : Gpr) (imm : UInt32)
  | shlR32Imm8 (dst : Gpr) (imm : UInt8)
  | shlR64Imm8 (dst : Gpr) (imm : UInt8)
  | shlR32Cl (dst : Gpr)
  | sarR32Cl (dst : Gpr)
  | shlR64Cl (dst : Gpr)
  | sarR64Cl (dst : Gpr)
  | idivR32 (divisor : Gpr)
  | idivR64 (divisor : Gpr)
  | cdq
  | cqo
  | movzxR32M8Disp (dst base : Gpr) (disp : UInt32)
  | storeImm8Disp (base : Gpr) (disp : UInt32) (imm : UInt8)
  | cmpM32Imm (base : Gpr) (disp imm : UInt32)
  | shrR64Imm8 (dst : Gpr) (imm : UInt8)
  | movsxdR64R32 (dst src : Gpr)
  | setcc (cc : Fin 16) (dst : Gpr)
  | movzxR32R8 (dst src : Gpr)
  | endbr64
  | subRspImm8 (imm : UInt8)
  | addRspImm8 (imm : UInt8)
  | jmpRel32
  | jccRel32 (cc : Fin 16)
  | leaRipRel32 (dst : Gpr)
  | callRax
  | ret
  | pushR64 (reg : Gpr)
  | popR64 (reg : Gpr)
  | jmpR64 (reg : Gpr)
  | loadXmm64Disp (xmm : Fin 8) (base : Gpr) (disp : UInt32)
  | storeXmm64Disp (xmm : Fin 8) (base : Gpr) (disp : UInt32)
  | loadXmm32Disp (xmm : Fin 8) (base : Gpr) (disp : UInt32)
  | storeXmm32Disp (xmm : Fin 8) (base : Gpr) (disp : UInt32)
  | addsd (dst src : Fin 8)
  | subsd (dst src : Fin 8)
  | mulsd (dst src : Fin 8)
  | divsd (dst src : Fin 8)
  | sqrtsd (dst src : Fin 8)
  | addss (dst src : Fin 8)
  | subss (dst src : Fin 8)
  | mulss (dst src : Fin 8)
  | divss (dst src : Fin 8)
  | comisd (dst src : Fin 8)
  | comiss (dst src : Fin 8)
  deriving DecidableEq, Repr

namespace Encoder

def emit : Encoder → Emitter
  | .movRr dst src => x64EmitMovRr dst.num src.num
  | .movR32Imm dst imm => x64EmitMovR32Imm dst.num imm
  | .movR64Imm dst imm => x64EmitMovR64Imm dst.num imm
  | .loadR32Disp dst base disp => x64EmitLoadR32Disp dst.num base.num disp
  | .storeR32Disp src base disp => x64EmitStoreR32Disp src.num base.num disp
  | .loadR64Disp dst base disp => x64EmitLoadR64Disp dst.num base.num disp
  | .storeR64Disp src base disp => x64EmitStoreR64Disp src.num base.num disp
  | .addRr dst src => x64EmitAddRr dst.num src.num
  | .subRr dst src => x64EmitSubRr dst.num src.num
  | .xorR64 dst src => x64EmitXorR64 dst.num src.num
  | .cmpR64Rr dst src => x64EmitCmpR64Rr dst.num src.num
  | .testR64 dst src => x64EmitTestR64 dst.num src.num
  | .xorR32 dst src => x64EmitXorR32 dst.num src.num
  | .testRr dst src => x64EmitTestRr dst.num src.num
  | .movR32Rr dst src => emitMovR32Rr dst.num src.num
  | .addR32Rr dst src => emitAddR32Rr dst.num src.num
  | .andR32Rr dst src => emitAndR32Rr dst.num src.num
  | .subR32Rr dst src => emitSubR32Rr dst.num src.num
  | .cmpR32Rr dst src => emitCmpR32Rr dst.num src.num
  | .x64CmpR32Rr lhs rhs => x64EmitCmpR32Rr lhs.num rhs.num
  | .imulR32 dst src => x64EmitImulR32 dst.num src.num
  | .imulR64 dst src => emitImulR64 dst.num src.num
  | .subR64Imm8 dst imm => x64EmitSubR64Imm8 dst.num imm
  | .negR64 dst => x64EmitNegR64 dst.num
  | .negR32 dst => emitNegR32 dst.num
  | .cmpR32Imm0 reg => x64EmitCmpR32Imm0 reg.num
  | .addR32Imm dst imm => x64EmitAddR32Imm dst.num imm
  | .andR32Imm dst imm => x64EmitAndR32Imm dst.num imm
  | .orR32Imm dst imm => x64EmitOrR32Imm dst.num imm
  | .subR32Imm dst imm => x64EmitSubR32Imm dst.num imm
  | .cmpR32Imm dst imm => x64EmitCmpR32Imm dst.num imm
  | .orR64Imm dst imm => x64EmitOrR64Imm dst.num imm
  | .shlR32Imm8 dst imm => x64EmitShlR32Imm8 dst.num imm
  | .shlR64Imm8 dst imm => x64EmitShlR64Imm8 dst.num imm
  | .shlR32Cl dst => emitShiftR32Cl 4 dst.num
  | .sarR32Cl dst => emitShiftR32Cl 7 dst.num
  | .shlR64Cl dst => emitShiftR64Cl 4 dst.num
  | .sarR64Cl dst => emitShiftR64Cl 7 dst.num
  | .idivR32 divisor => emitIdivR32 divisor.num
  | .idivR64 divisor => emitIdivR64 divisor.num
  | .cdq => emitCdq
  | .cqo => emitCqo
  | .movzxR32M8Disp dst base disp => x64EmitMovzxR32M8Disp dst.num base.num disp
  | .storeImm8Disp base disp imm => x64EmitStoreImm8Disp base.num disp imm
  | .cmpM32Imm base disp imm => emitCmpM32Imm0 base.num disp imm
  | .shrR64Imm8 dst imm => emitShrR64Imm8 dst.num imm
  | .movsxdR64R32 dst src => emitMovsxdR64R32 dst.num src.num
  | .setcc cc dst => x64EmitSetcc (UInt8.ofNat (0x90 + cc)) dst.num
  | .movzxR32R8 dst src => x64EmitMovzxR32R8 dst.num src.num
  | .endbr64 => x64EmitEndbr64
  | .subRspImm8 imm => x64EmitSubRspImm8 imm
  | .addRspImm8 imm => x64EmitAddRspImm8 imm
  | .jmpRel32 => x64EmitJmpRel32
  | .jccRel32 cc => x64EmitJccRel32 (UInt8.ofNat (0x80 + cc))
  | .leaRipRel32 dst => x64EmitLeaRipRel32 dst.num
  | .callRax => x64EmitCallRax
  | .ret => x64EmitRet
  | .pushR64 reg => x64EmitPushR64 reg.num
  | .popR64 reg => x64EmitPopR64 reg.num
  | .jmpR64 reg => x64EmitJmpR64 reg.num
  | .loadXmm64Disp xmm base disp => x64EmitLoadXmm64Disp xmm base.num disp
  | .storeXmm64Disp xmm base disp => x64EmitStoreXmm64Disp xmm base.num disp
  | .loadXmm32Disp xmm base disp => x64EmitLoadXmm32Disp xmm base.num disp
  | .storeXmm32Disp xmm base disp => x64EmitStoreXmm32Disp xmm base.num disp
  | .addsd dst src => x64EmitAddsd dst src
  | .subsd dst src => x64EmitSubsd dst src
  | .mulsd dst src => x64EmitMulsd dst src
  | .divsd dst src => x64EmitDivsd dst src
  | .sqrtsd dst src => x64EmitSqrtsd dst src
  | .addss dst src => x64EmitAddss dst src
  | .subss dst src => x64EmitSubss dst src
  | .mulss dst src => x64EmitMulss dst src
  | .divss dst src => x64EmitDivss dst src
  | .comisd dst src => x64EmitComisd dst src
  | .comiss dst src => x64EmitComiss dst src

/-- The instruction in the name of the encoder, with its width and its operands. -/
def named : Encoder → Decoded
  | .movRr dst src => ⟨.mov, [.r64 dst, .r64 src]⟩
  | .movR32Imm dst imm => ⟨.mov, [.r32 dst, .imm imm.toNat]⟩
  | .movR64Imm dst imm => ⟨.mov, [.r64 dst, .imm imm.toNat]⟩
  | .loadR32Disp dst base disp => ⟨.mov, [.r32 dst, .m32 (.base base disp)]⟩
  | .storeR32Disp src base disp => ⟨.mov, [.m32 (.base base disp), .r32 src]⟩
  | .loadR64Disp dst base disp => ⟨.mov, [.r64 dst, .m64 (.base base disp)]⟩
  | .storeR64Disp src base disp => ⟨.mov, [.m64 (.base base disp), .r64 src]⟩
  | .addRr dst src => ⟨.add, [.r64 dst, .r64 src]⟩
  | .subRr dst src => ⟨.sub, [.r64 dst, .r64 src]⟩
  | .xorR64 dst src => ⟨.xor, [.r64 dst, .r64 src]⟩
  | .cmpR64Rr dst src => ⟨.cmp, [.r64 dst, .r64 src]⟩
  | .testR64 dst src => ⟨.test, [.r64 dst, .r64 src]⟩
  | .xorR32 dst src => ⟨.xor, [.r32 dst, .r32 src]⟩
  | .testRr dst src => ⟨.test, [.r32 dst, .r32 src]⟩
  | .movR32Rr dst src => ⟨.mov, [.r32 dst, .r32 src]⟩
  | .addR32Rr dst src => ⟨.add, [.r32 dst, .r32 src]⟩
  | .andR32Rr dst src => ⟨.and, [.r32 dst, .r32 src]⟩
  | .subR32Rr dst src => ⟨.sub, [.r32 dst, .r32 src]⟩
  | .cmpR32Rr dst src => ⟨.cmp, [.r32 dst, .r32 src]⟩
  | .x64CmpR32Rr lhs rhs => ⟨.cmp, [.r32 lhs, .r32 rhs]⟩
  | .imulR32 dst src => ⟨.imul, [.r32 dst, .r32 src]⟩
  | .imulR64 dst src => ⟨.imul, [.r64 dst, .r64 src]⟩
  | .subR64Imm8 dst imm => ⟨.sub, [.r64 dst, .imm (int8 imm)]⟩
  | .negR64 dst => ⟨.neg, [.r64 dst]⟩
  | .negR32 dst => ⟨.neg, [.r32 dst]⟩
  | .cmpR32Imm0 reg => ⟨.cmp, [.r32 reg, .imm 0]⟩
  | .addR32Imm dst imm => ⟨.add, [.r32 dst, .imm (int32 imm)]⟩
  | .andR32Imm dst imm => ⟨.and, [.r32 dst, .imm (int32 imm)]⟩
  | .orR32Imm dst imm => ⟨.or, [.r32 dst, .imm (int32 imm)]⟩
  | .subR32Imm dst imm => ⟨.sub, [.r32 dst, .imm (int32 imm)]⟩
  | .cmpR32Imm dst imm => ⟨.cmp, [.r32 dst, .imm (int32 imm)]⟩
  | .orR64Imm dst imm => ⟨.or, [.r64 dst, .imm (int32 imm)]⟩
  | .shlR32Imm8 dst imm => ⟨.shl, [.r32 dst, .imm imm.toNat]⟩
  | .shlR64Imm8 dst imm => ⟨.shl, [.r64 dst, .imm imm.toNat]⟩
  | .shlR32Cl dst => ⟨.shl, [.r32 dst, .r8 .rcx]⟩
  | .sarR32Cl dst => ⟨.sar, [.r32 dst, .r8 .rcx]⟩
  | .shlR64Cl dst => ⟨.shl, [.r64 dst, .r8 .rcx]⟩
  | .sarR64Cl dst => ⟨.sar, [.r64 dst, .r8 .rcx]⟩
  | .idivR32 divisor => ⟨.idiv, [.r32 divisor]⟩
  | .idivR64 divisor => ⟨.idiv, [.r64 divisor]⟩
  | .cdq => ⟨.cdq, []⟩
  | .cqo => ⟨.cqo, []⟩
  | .movzxR32M8Disp dst base disp => ⟨.movzx, [.r32 dst, .m8 (.base base disp)]⟩
  | .storeImm8Disp base disp imm => ⟨.mov, [.m8 (.base base disp), .imm (int8 imm)]⟩
  | .cmpM32Imm base disp imm => ⟨.cmp, [.m32 (.base base disp), .imm (int32 imm)]⟩
  | .shrR64Imm8 dst imm => ⟨.shr, [.r64 dst, .imm imm.toNat]⟩
  | .movsxdR64R32 dst src => ⟨.movsxd, [.r64 dst, .r32 src]⟩
  | .setcc cc dst => ⟨.set cc, [.r8 dst]⟩
  | .movzxR32R8 dst src => ⟨.movzx, [.r32 dst, .r8 src]⟩
  | .endbr64 => ⟨.endbr64, []⟩
  | .subRspImm8 imm => ⟨.sub, [.r64 .rsp, .imm (int8 imm)]⟩
  | .addRspImm8 imm => ⟨.add, [.r64 .rsp, .imm (int8 imm)]⟩
  | .jmpRel32 => ⟨.jmp, [.imm 0]⟩
  | .jccRel32 cc => ⟨.j cc, [.imm 0]⟩
  | .leaRipRel32 dst => ⟨.lea, [.r64 dst, .m64 (.rip 0)]⟩
  | .callRax => ⟨.call, [.r64 .rax]⟩
  | .ret => ⟨.ret, []⟩
  | .pushR64 reg => ⟨.push, [.r64 reg]⟩
  | .popR64 reg => ⟨.pop, [.r64 reg]⟩
  | .jmpR64 reg => ⟨.jmp, [.r64 reg]⟩
  | .loadXmm64Disp xmm base disp => ⟨.movsd, [.xmm xmm, .m64 (.base base disp)]⟩
  | .storeXmm64Disp xmm base disp => ⟨.movsd, [.m64 (.base base disp), .xmm xmm]⟩
  | .loadXmm32Disp xmm base disp => ⟨.movss, [.xmm xmm, .m32 (.base base disp)]⟩
  | .storeXmm32Disp xmm base disp => ⟨.movss, [.m32 (.base base disp), .xmm xmm]⟩
  | .addsd dst src => ⟨.addsd, [.xmm dst, .xmm src]⟩
  | .subsd dst src => ⟨.subsd, [.xmm dst, .xmm src]⟩
  | .mulsd dst src => ⟨.mulsd, [.xmm dst, .xmm src]⟩
  | .divsd dst src => ⟨.divsd, [.xmm dst, .xmm src]⟩
  | .sqrtsd dst src => ⟨.sqrtsd, [.xmm dst, .xmm src]⟩
  | .addss dst src => ⟨.addss, [.xmm dst, .xmm src]⟩
  | .subss dst src => ⟨.subss, [.xmm dst, .xmm src]⟩
  | .mulss dst src => ⟨.mulss, [.xmm dst, .xmm src]⟩
  | .divss dst src => ⟨.divss, [.xmm dst, .xmm src]⟩
  | .comisd dst src => ⟨.comisd, [.xmm dst, .xmm src]⟩
  | .comiss dst src => ⟨.comiss, [.xmm dst, .xmm src]⟩

def read : Encoder → Decoded
  | .x64CmpR32Rr lhs rhs => ⟨.cmp, [.r64 lhs, .r64 rhs]⟩
  | .imulR32 dst src => ⟨.imul, [.r32 (crossed dst src), .r32 (crossed src dst)]⟩
  | .imulR64 dst src => ⟨.imul, [.r64 (crossed dst src), .r64 (crossed src dst)]⟩
  | .setcc cc dst => ⟨.set cc, [byteOf dst.hi dst]⟩
  | .movzxR32R8 dst src =>
    ⟨.movzx, [.r32 (crossed dst src), byteOf (dst.hi || src.hi) (crossed src dst)]⟩
  | e => e.named

/-- The operands with which an encoder is right. -/
def Right : Encoder → Prop
  | .x64CmpR32Rr _ _ => False
  | .imulR32 dst src => dst.hi = src.hi
  | .imulR64 dst src => dst.hi = src.hi
  | .setcc _ dst => ¬ (4 ≤ dst.num ∧ dst.num < 8)
  | .movzxR32R8 dst src => dst.hi = src.hi ∧ ¬ (4 ≤ src.num ∧ src.num < 8)
  | _ => True

theorem decodes_read (e : Encoder) : Decodes e.emit e.read := by
  cases e with
  | movRr dst src => exact decodes_movRr dst src
  | movR32Imm dst imm => exact decodes_movR32Imm dst imm
  | movR64Imm dst imm => exact decodes_movR64Imm dst imm
  | loadR32Disp dst base disp => exact decodes_load32 dst base disp (opens rfl rfl)
  | storeR32Disp src base disp => exact decodes_store32 src base disp (opens rfl rfl)
  | loadR64Disp dst base disp => exact decodes_load64 dst base disp (opens rfl rfl)
  | storeR64Disp src base disp => exact decodes_store64 src base disp (opens rfl rfl)
  | addRr dst src => exact decodes_aluRr dst src (opens rfl rfl)
  | subRr dst src => exact decodes_aluRr dst src (opens rfl rfl)
  | xorR64 dst src => exact decodes_aluRr dst src (opens rfl rfl)
  | cmpR64Rr dst src => exact decodes_aluRr dst src (opens rfl rfl)
  | testR64 dst src => exact decodes_aluRr dst src (opens rfl rfl)
  | xorR32 dst src => exact decodes_aluR32Rr dst src (opens rfl rfl)
  | testRr dst src => exact decodes_aluR32Rr dst src (opens rfl rfl)
  | movR32Rr dst src => exact decodes_aluR32Rr dst src (opens rfl rfl)
  | addR32Rr dst src => exact decodes_aluR32Rr dst src (opens rfl rfl)
  | andR32Rr dst src => exact decodes_aluR32Rr dst src (opens rfl rfl)
  | subR32Rr dst src => exact decodes_aluR32Rr dst src (opens rfl rfl)
  | cmpR32Rr dst src => exact decodes_aluR32Rr dst src (opens rfl rfl)
  | x64CmpR32Rr lhs rhs => exact decodes_aluRr lhs rhs (opens rfl rfl)
  | imulR32 dst src => exact decodes_imulR32 dst src
  | imulR64 dst src => exact decodes_imulR64 dst src
  | subR64Imm8 dst imm => exact decodes_digit64 dst (opens rfl rfl) (by decide) rfl (read_simm8 imm)
  | negR64 dst => exact decodes_digit64 dst (opens rfl rfl) (by decide) rfl fun _ ↦ rfl
  | negR32 dst => exact decodes_digit32 dst (opens rfl rfl) (by decide) rfl fun _ ↦ rfl
  | cmpR32Imm0 reg => exact decodes_digit32 reg (opens rfl rfl) (by decide) rfl (read_simm8 0)
  | addR32Imm dst imm => exact decodes_aluR32Imm dst (by decide) rfl imm
  | andR32Imm dst imm => exact decodes_aluR32Imm dst (by decide) rfl imm
  | orR32Imm dst imm => exact decodes_aluR32Imm dst (by decide) rfl imm
  | subR32Imm dst imm => exact decodes_aluR32Imm dst (by decide) rfl imm
  | cmpR32Imm dst imm => exact decodes_aluR32Imm dst (by decide) rfl imm
  | orR64Imm dst imm => exact decodes_aluR64Imm dst (by decide) rfl imm
  | shlR32Imm8 dst imm => exact decodes_digit32 dst (opens rfl rfl) (by decide) rfl (read_count8 imm)
  | shlR64Imm8 dst imm => exact decodes_digit64 dst (opens rfl rfl) (by decide) rfl (read_count8 imm)
  | shlR32Cl dst => exact decodes_digit32 dst (opens rfl rfl) (by decide) rfl fun _ ↦ rfl
  | sarR32Cl dst => exact decodes_digit32 dst (opens rfl rfl) (by decide) rfl fun _ ↦ rfl
  | shlR64Cl dst => exact decodes_digit64 dst (opens rfl rfl) (by decide) rfl fun _ ↦ rfl
  | sarR64Cl dst => exact decodes_digit64 dst (opens rfl rfl) (by decide) rfl fun _ ↦ rfl
  | idivR32 divisor => exact decodes_digit32 divisor (opens rfl rfl) (by decide) rfl fun _ ↦ rfl
  | idivR64 divisor => exact decodes_digit64 divisor (opens rfl rfl) (by decide) rfl fun _ ↦ rfl
  | cdq => exact decodes_bytes (List.cons_ne_nil _ _) fun _ ↦ rfl
  | cqo => exact decodes_bytes (List.cons_ne_nil _ _) fun _ ↦ rfl
  | movzxR32M8Disp dst base disp => exact decodes_loadByte dst base disp rfl
  | storeImm8Disp base disp imm => exact decodes_storeImm8 base disp imm
  | cmpM32Imm base disp imm => exact decodes_cmpM32Imm base disp imm
  | shrR64Imm8 dst imm =>
    exact decodes_digit64 dst (opens rfl rfl) (by decide) rfl (read_count8 imm)
  | movsxdR64R32 dst src => exact decodes_movsxd dst src
  | setcc cc dst => exact decodes_setcc dst cc
  | movzxR32R8 dst src => exact decodes_movzxR32R8 dst src
  | endbr64 => exact decodes_bytes (List.cons_ne_nil _ _) fun _ ↦ rfl
  | subRspImm8 imm => exact decodes_bytes (List.cons_ne_nil _ _) fun _ ↦ rfl
  | addRspImm8 imm => exact decodes_bytes (List.cons_ne_nil _ _) fun _ ↦ rfl
  | jmpRel32 => exact decodes_bytes (List.cons_ne_nil _ _) fun _ ↦ rfl
  | jccRel32 cc => exact decodes_jcc cc
  | leaRipRel32 dst => exact decodes_leaRip dst
  | callRax => exact decodes_bytes (List.cons_ne_nil _ _) fun _ ↦ rfl
  | ret => exact decodes_bytes (List.cons_ne_nil _ _) fun _ ↦ rfl
  | pushR64 reg => exact decodes_pushR64 reg
  | popR64 reg => exact decodes_popR64 reg
  | jmpR64 reg => exact decodes_jmpR64 reg
  | loadXmm64Disp xmm base disp => exact decodes_loadXmm 0xf2 0x10 xmm base disp rfl (by decide) rfl
  | storeXmm64Disp xmm base disp => exact decodes_storeXmm 0xf2 0x11 xmm base disp rfl (by decide) rfl
  | loadXmm32Disp xmm base disp => exact decodes_loadXmm 0xf3 0x10 xmm base disp rfl (by decide) rfl
  | storeXmm32Disp xmm base disp => exact decodes_storeXmm 0xf3 0x11 xmm base disp rfl (by decide) rfl
  | addsd dst src => exact decodes_xmmRr 0xf2 0x58 dst src rfl (by decide) rfl
  | subsd dst src => exact decodes_xmmRr 0xf2 0x5c dst src rfl (by decide) rfl
  | mulsd dst src => exact decodes_xmmRr 0xf2 0x59 dst src rfl (by decide) rfl
  | divsd dst src => exact decodes_xmmRr 0xf2 0x5e dst src rfl (by decide) rfl
  | sqrtsd dst src => exact decodes_xmmRr 0xf2 0x51 dst src rfl (by decide) rfl
  | addss dst src => exact decodes_xmmRr 0xf3 0x58 dst src rfl (by decide) rfl
  | subss dst src => exact decodes_xmmRr 0xf3 0x5c dst src rfl (by decide) rfl
  | mulss dst src => exact decodes_xmmRr 0xf3 0x59 dst src rfl (by decide) rfl
  | divss dst src => exact decodes_xmmRr 0xf3 0x5e dst src rfl (by decide) rfl
  | comisd dst src => exact decodes_xmmRr 0x66 0x2f dst src rfl (by decide) rfl
  | comiss dst src => exact decodes_comiss dst src

theorem read_eq_named_iff (e : Encoder) : e.read = e.named ↔ e.Right := by
  cases e with
  | x64CmpR32Rr lhs rhs => simp [read, named, Right]
  | imulR32 dst src =>
    simp only [read, named, Right, Decoded.mk.injEq, true_and, List.cons.injEq, Operand.r32.injEq,
      crossed_eq_iff, and_true]
    exact ⟨fun h ↦ h.2, fun h ↦ ⟨h.symm, h⟩⟩
  | imulR64 dst src =>
    simp only [read, named, Right, Decoded.mk.injEq, true_and, List.cons.injEq, Operand.r64.injEq,
      crossed_eq_iff, and_true]
    exact ⟨fun h ↦ h.2, fun h ↦ ⟨h.symm, h⟩⟩
  | setcc cc dst =>
    have hrow : dst.hi = false ∧ 4 ≤ dst.num ∧ dst.num < 8 ↔ 4 ≤ dst.num ∧ dst.num < 8 := by
      cases dst <;> decide
    simp only [read, named, Right, Decoded.mk.injEq, true_and, List.cons.injEq, and_true,
      byteOf_eq_iff, hrow]
  | movzxR32R8 dst src =>
    simp only [read, named, Right, Decoded.mk.injEq, true_and, List.cons.injEq, Operand.r32.injEq,
      crossed_eq_iff, and_true]
    constructor
    · rintro ⟨hhi, hbyte⟩
      have hcross : crossed src dst = src := (crossed_eq_iff src dst).mpr hhi.symm
      rw [hcross, byteOf_eq_iff] at hbyte
      refine ⟨hhi.symm, fun hrow ↦ hbyte ⟨?_, hrow⟩⟩
      have hlow : src.hi = false := by simp [Gpr.hi, hrow.2]
      rw [← hhi, hlow, Bool.or_false]
    · rintro ⟨hhi, hrow⟩
      have hcross : crossed src dst = src := (crossed_eq_iff src dst).mpr hhi
      rw [hcross, byteOf_eq_iff]
      exact ⟨hhi.symm, fun h ↦ hrow h.2⟩
  | _ => exact ⟨fun _ ↦ trivial, fun _ ↦ rfl⟩

end Encoder

theorem data_of_emitBytes {bytes : List UInt8} {realloc : ℕ → Bool} {buf buf' : JelloJitEmitBuf}
    (h : jelloJitEmitBytes bytes realloc buf = some buf') : buf'.data = buf.data ++ bytes := by
  rw [jelloJitEmitBytes] at h
  split_ifs at h
  obtain ⟨b, hb, rfl⟩ := Option.map_eq_some_iff.mp h
  have hdata : b.data = buf.data := by
    simp only [jelloJitEmitBufReserve] at hb
    split_ifs at hb <;> cases hb <;> rfl
  rw [hdata]

theorem encoders_decode_iff (e : Encoder) {realloc : ℕ → Bool} {buf buf' : JelloJitEmitBuf}
    (h : e.emit realloc buf = some buf') :
    ∃ bytes, buf'.data = buf.data ++ bytes ∧
      ∀ rest, decode (bytes ++ rest) = some (e.named, rest) ↔ e.Right := by
  obtain ⟨bytes, -, hemit, hdecode⟩ := e.decodes_read
  rw [hemit] at h
  refine ⟨bytes, data_of_emitBytes h, fun rest ↦ ?_⟩
  rw [hdecode rest, Option.some.injEq, Prod.mk.injEq, and_iff_left rfl, e.read_eq_named_iff]

/-- `mov [r12 + 8], r9d`, with a prefix, a SIB byte and a displacement. -/
theorem store_decoded : ∃ buf', (Encoder.storeR32Disp .r9 .r12 8).emit (fun _ ↦ true) ⟨[], 0⟩ =
    some buf' ∧ ∃ bytes, buf'.data = [] ++ bytes ∧
      ∀ rest, decode (bytes ++ rest) = some ((Encoder.storeR32Disp .r9 .r12 8).named, rest) ↔
        (Encoder.storeR32Disp .r9 .r12 8).Right := by
  have hsome : ((Encoder.storeR32Disp .r9 .r12 8).emit (fun _ ↦ true) ⟨[], 0⟩).isSome = true := rfl
  obtain ⟨buf', hbuf⟩ := Option.isSome_iff_exists.mp hsome
  exact ⟨buf', hbuf, encoders_decode_iff (.storeR32Disp .r9 .r12 8) hbuf⟩

/-- `imul eax, r8d` is emitted as `imul r8d, eax`. -/
theorem imul_swapped : ∃ buf', (Encoder.imulR32 .rax .r8).emit (fun _ ↦ true) ⟨[], 0⟩ = some buf' ∧
    decode buf'.data = some (⟨.imul, [.r32 .r8, .r32 .rax]⟩, []) ∧
    decode buf'.data ≠ some ((Encoder.imulR32 .rax .r8).named, []) :=
  ⟨_, rfl, by decide, by decide⟩

section Code

def emitAll (realloc : ℕ → Bool) (buf : JelloJitEmitBuf) (code : List Encoder) :
    Option JelloJitEmitBuf :=
  code.foldlM (fun buf e ↦ e.emit realloc buf) buf

def disassemble : ℕ → List UInt8 → Option (List Decoded)
  | 0, _ => some []
  | n + 1, bs => do
    let (d, bs) ← decode bs
    let ds ← disassemble n bs
    pure (d :: ds)

theorem disassemble_emitAll (code : List Encoder) {realloc : ℕ → Bool} {buf buf' : JelloJitEmitBuf}
    (h : emitAll realloc buf code = some buf') :
    ∃ bytes, buf'.data = buf.data ++ bytes ∧
      ∀ rest, disassemble code.length (bytes ++ rest) = some (code.map Encoder.read) := by
  induction code generalizing buf with
  | nil =>
    cases h
    exact ⟨[], (List.append_nil _).symm, fun _ ↦ rfl⟩
  | cons e code ih =>
    rw [emitAll, List.foldlM_cons] at h
    obtain ⟨mid, hmid, hrest⟩ := Option.bind_eq_some_iff.mp h
    obtain ⟨bytes, hdata, hdecode⟩ := ih hrest
    obtain ⟨first, -, hemit, hfirst⟩ := e.decodes_read
    rw [hemit] at hmid
    refine ⟨first ++ bytes, ?_, fun rest ↦ ?_⟩
    · rw [hdata, data_of_emitBytes hmid, List.append_assoc]
    · rw [List.append_assoc, List.length_cons, disassemble, hfirst]
      simp [hdecode]

end Code

end JelloVM
