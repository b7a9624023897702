import NfpDriver.Jit.Alu
import NfpDriver.Jit.Jump
import NfpDriver.Jit.Call

namespace NfpDriver.Jit

open Asm Bpf

inductive Cb where
  | movReg64
  | movImm64
  | xorReg64
  | xorImm64
  | andReg64
  | andImm64
  | orReg64
  | orImm64
  | addReg64
  | addImm64
  | subReg64
  | subImm64
  | mulReg64
  | mulImm64
  | divReg64
  | divImm64
  | negReg64
  | shlReg64
  | shlImm64
  | shrReg64
  | shrImm64
  | ashrReg64
  | ashrImm64
  | movReg
  | movImm
  | xorReg
  | xorImm
  | andReg
  | andImm
  | orReg
  | orImm
  | addReg
  | addImm
  | subReg
  | subImm
  | mulReg
  | mulImm
  | divReg
  | divImm
  | negReg
  | shlReg
  | shlImm
  | shrReg
  | shrImm
  | ashrReg
  | ashrImm
  | endReg32
  | immLd8
  | dataLd1
  | dataLd2
  | dataLd4
  | dataIndLd1
  | dataIndLd2
  | dataIndLd4
  | memLdx1
  | memLdx2
  | memLdx4
  | memLdx8
  | memStx1
  | memStx2
  | memStx4
  | memStx8
  | memAtomic4
  | memAtomic8
  | memSt1
  | memSt2
  | memSt4
  | memSt8
  | jump
  | jeqImm
  | cmpImm
  | jsetImm
  | jneImm
  | jeqReg
  | cmpReg
  | jsetReg
  | jneReg
  | jeq32Imm
  | call
  | jmpExit
  deriving DecidableEq, Repr

def instrCb : List (BitVec 8 × Cb) := [
  (bpfAlu64 ||| bpfMov ||| bpfX, .movReg64),
  (bpfAlu64 ||| bpfMov ||| bpfK, .movImm64),
  (bpfAlu64 ||| bpfXor ||| bpfX, .xorReg64),
  (bpfAlu64 ||| bpfXor ||| bpfK, .xorImm64),
  (bpfAlu64 ||| bpfAnd ||| bpfX, .andReg64),
  (bpfAlu64 ||| bpfAnd ||| bpfK, .andImm64),
  (bpfAlu64 ||| bpfOr ||| bpfX, .orReg64),
  (bpfAlu64 ||| bpfOr ||| bpfK, .orImm64),
  (bpfAlu64 ||| bpfAdd ||| bpfX, .addReg64),
  (bpfAlu64 ||| bpfAdd ||| bpfK, .addImm64),
  (bpfAlu64 ||| bpfSub ||| bpfX, .subReg64),
  (bpfAlu64 ||| bpfSub ||| bpfK, .subImm64),
  (bpfAlu64 ||| bpfMul ||| bpfX, .mulReg64),
  (bpfAlu64 ||| bpfMul ||| bpfK, .mulImm64),
  (bpfAlu64 ||| bpfDiv ||| bpfX, .divReg64),
  (bpfAlu64 ||| bpfDiv ||| bpfK, .divImm64),
  (bpfAlu64 ||| bpfNeg, .negReg64),
  (bpfAlu64 ||| bpfLsh ||| bpfX, .shlReg64),
  (bpfAlu64 ||| bpfLsh ||| bpfK, .shlImm64),
  (bpfAlu64 ||| bpfRsh ||| bpfX, .shrReg64),
  (bpfAlu64 ||| bpfRsh ||| bpfK, .shrImm64),
  (bpfAlu64 ||| bpfArsh ||| bpfX, .ashrReg64),
  (bpfAlu64 ||| bpfArsh ||| bpfK, .ashrImm64),
  (bpfAlu ||| bpfMov ||| bpfX, .movReg),
  (bpfAlu ||| bpfMov ||| bpfK, .movImm),
  (bpfAlu ||| bpfXor ||| bpfX, .xorReg),
  (bpfAlu ||| bpfXor ||| bpfK, .xorImm),
  (bpfAlu ||| bpfAnd ||| bpfX, .andReg),
  (bpfAlu ||| bpfAnd ||| bpfK, .andImm),
  (bpfAlu ||| bpfOr ||| bpfX, .orReg),
  (bpfAlu ||| bpfOr ||| bpfK, .orImm),
  (bpfAlu ||| bpfAdd ||| bpfX, .addReg),
  (bpfAlu ||| bpfAdd ||| bpfK, .addImm),
  (bpfAlu ||| bpfSub ||| bpfX, .subReg),
  (bpfAlu ||| bpfSub ||| bpfK, .subImm),
  (bpfAlu ||| bpfMul ||| bpfX, .mulReg),
  (bpfAlu ||| bpfMul ||| bpfK, .mulImm),
  (bpfAlu ||| bpfDiv ||| bpfX, .divReg),
  (bpfAlu ||| bpfDiv ||| bpfK, .divImm),
  (bpfAlu ||| bpfNeg, .negReg),
  (bpfAlu ||| bpfLsh ||| bpfX, .shlReg),
  (bpfAlu ||| bpfLsh ||| bpfK, .shlImm),
  (bpfAlu ||| bpfRsh ||| bpfX, .shrReg),
  (bpfAlu ||| bpfRsh ||| bpfK, .shrImm),
  (bpfAlu ||| bpfArsh ||| bpfX, .ashrReg),
  (bpfAlu ||| bpfArsh ||| bpfK, .ashrImm),
  (bpfAlu ||| bpfEnd ||| bpfX, .endReg32),
  (bpfLd ||| bpfImm ||| bpfDw, .immLd8),
  (bpfLd ||| bpfAbs ||| bpfB, .dataLd1),
  (bpfLd ||| bpfAbs ||| bpfH, .dataLd2),
  (bpfLd ||| bpfAbs ||| bpfW, .dataLd4),
  (bpfLd ||| bpfInd ||| bpfB, .dataIndLd1),
  (bpfLd ||| bpfInd ||| bpfH, .dataIndLd2),
  (bpfLd ||| bpfInd ||| bpfW, .dataIndLd4),
  (bpfLdx ||| bpfMem ||| bpfB, .memLdx1),
  (bpfLdx ||| bpfMem ||| bpfH, .memLdx2),
  (bpfLdx ||| bpfMem ||| bpfW, .memLdx4),
  (bpfLdx ||| bpfMem ||| bpfDw, .memLdx8),
  (bpfStx ||| bpfMem ||| bpfB, .memStx1),
  (bpfStx ||| bpfMem ||| bpfH, .memStx2),
  (bpfStx ||| bpfMem ||| bpfW, .memStx4),
  (bpfStx ||| bpfMem ||| bpfDw, .memStx8),
  (bpfStx ||| bpfAtomic ||| bpfW, .memAtomic4),
  (bpfStx ||| bpfAtomic ||| bpfDw, .memAtomic8),
  (bpfSt ||| bpfMem ||| bpfB, .memSt1),
  (bpfSt ||| bpfMem ||| bpfH, .memSt2),
  (bpfSt ||| bpfMem ||| bpfW, .memSt4),
  (bpfSt ||| bpfMem ||| bpfDw, .memSt8),
  (bpfJmp ||| bpfJa ||| bpfK, .jump),
  (bpfJmp ||| bpfJeq ||| bpfK, .jeqImm),
  (bpfJmp ||| bpfJgt ||| bpfK, .cmpImm),
  (bpfJmp ||| bpfJge ||| bpfK, .cmpImm),
  (bpfJmp ||| bpfJlt ||| bpfK, .cmpImm),
  (bpfJmp ||| bpfJle ||| bpfK, .cmpImm),
  (bpfJmp ||| bpfJsgt ||| bpfK, .cmpImm),
  (bpfJmp ||| bpfJsge ||| bpfK, .cmpImm),
  (bpfJmp ||| bpfJslt ||| bpfK, .cmpImm),
  (bpfJmp ||| bpfJsle ||| bpfK, .cmpImm),
  (bpfJmp ||| bpfJset ||| bpfK, .jsetImm),
  (bpfJmp ||| bpfJne ||| bpfK, .jneImm),
  (bpfJmp ||| bpfJeq ||| bpfX, .jeqReg),
  (bpfJmp ||| bpfJgt ||| bpfX, .cmpReg),
  (bpfJmp ||| bpfJge ||| bpfX, .cmpReg),
  (bpfJmp ||| bpfJlt ||| bpfX, .cmpReg),
  (bpfJmp ||| bpfJle ||| bpfX, .cmpReg),
  (bpfJmp ||| bpfJsgt ||| bpfX, .cmpReg),
  (bpfJmp ||| bpfJsge ||| bpfX, .cmpReg),
  (bpfJmp ||| bpfJslt ||| bpfX, .cmpReg),
  (bpfJmp ||| bpfJsle ||| bpfX, .cmpReg),
  (bpfJmp ||| bpfJset ||| bpfX, .jsetReg),
  (bpfJmp ||| bpfJne ||| bpfX, .jneReg),
  (bpfJmp32 ||| bpfJeq ||| bpfK, .jeq32Imm),
  (bpfJmp32 ||| bpfJgt ||| bpfK, .cmpImm),
  (bpfJmp32 ||| bpfJge ||| bpfK, .cmpImm),
  (bpfJmp32 ||| bpfJlt ||| bpfK, .cmpImm),
  (bpfJmp32 ||| bpfJle ||| bpfK, .cmpImm),
  (bpfJmp32 ||| bpfJsgt ||| bpfK, .cmpImm),
  (bpfJmp32 ||| bpfJsge ||| bpfK, .cmpImm),
  (bpfJmp32 ||| bpfJslt ||| bpfK, .cmpImm),
  (bpfJmp32 ||| bpfJsle ||| bpfK, .cmpImm),
  (bpfJmp32 ||| bpfJset ||| bpfK, .jsetImm),
  (bpfJmp32 ||| bpfJne ||| bpfK, .jneImm),
  (bpfJmp32 ||| bpfJeq ||| bpfX, .jeqReg),
  (bpfJmp32 ||| bpfJgt ||| bpfX, .cmpReg),
  (bpfJmp32 ||| bpfJge ||| bpfX, .cmpReg),
  (bpfJmp32 ||| bpfJlt ||| bpfX, .cmpReg),
  (bpfJmp32 ||| bpfJle ||| bpfX, .cmpReg),
  (bpfJmp32 ||| bpfJsgt ||| bpfX, .cmpReg),
  (bpfJmp32 ||| bpfJsge ||| bpfX, .cmpReg),
  (bpfJmp32 ||| bpfJslt ||| bpfX, .cmpReg),
  (bpfJmp32 ||| bpfJsle ||| bpfX, .cmpReg),
  (bpfJmp32 ||| bpfJset ||| bpfX, .jsetReg),
  (bpfJmp32 ||| bpfJne ||| bpfX, .jneReg),
  (bpfJmp ||| bpfCall, .call),
  (bpfJmp ||| bpfExit, .jmpExit)]

def Cb.run (p : Prog) (off : Nat) (m : Meta) : Cb → CbResult
  | .movReg64 => Jit.movReg64 p.stackFrameDepth m
  | .movImm64 => Jit.movImm64 m
  | .xorReg64 => Jit.xorReg64 m
  | .xorImm64 => Jit.xorImm64 m
  | .andReg64 => Jit.andReg64 m
  | .andImm64 => Jit.andImm64 m
  | .orReg64 => Jit.orReg64 m
  | .orImm64 => Jit.orImm64 m
  | .addReg64 => Jit.addReg64 m
  | .addImm64 => Jit.addImm64 m
  | .subReg64 => Jit.subReg64 m
  | .subImm64 => Jit.subImm64 m
  | .mulReg64 => Jit.mulReg64 m
  | .mulImm64 => Jit.mulImm64 m
  | .divReg64 => ok m (wrpDivImm p.reciprocalValueAdv (gpr m.insn.dstReg) m.uminSrc)
  | .divImm64 => ok m (wrpDivImm p.reciprocalValueAdv (gpr m.insn.dstReg) (sextImm m.insn))
  | .negReg64 => Jit.negReg64 m
  | .shlReg64 => Jit.shlReg64 off m
  | .shlImm64 => Jit.shlImm64 m
  | .shrReg64 => Jit.shrReg64 off m
  | .shrImm64 => Jit.shrImm64 m
  | .ashrReg64 => Jit.ashrReg64 off m
  | .ashrImm64 => Jit.ashrImm64 m
  | .movReg => Jit.movReg m
  | .movImm => Jit.movImm m
  | .xorReg => Jit.xorReg m
  | .xorImm => Jit.xorImm m
  | .andReg => Jit.andReg m
  | .andImm => Jit.andImm m
  | .orReg => Jit.orReg m
  | .orImm => Jit.orImm m
  | .addReg => Jit.addReg m
  | .addImm => Jit.addImm m
  | .subReg => Jit.subReg m
  | .subImm => Jit.subImm m
  | .mulReg => Jit.mulReg m
  | .mulImm => Jit.mulImm m
  | .divReg => ok m (wrpDivImm p.reciprocalValueAdv (gpr m.insn.dstReg) m.uminSrc)
  | .divImm => ok m (wrpDivImm p.reciprocalValueAdv (gpr m.insn.dstReg) (sextImm m.insn))
  | .negReg => Jit.negReg m
  | .shlReg => Jit.shlReg m
  | .shlImm => Jit.shlImm m
  | .shrReg => Jit.shrReg m
  | .shrImm => Jit.shrImm m
  | .ashrReg => Jit.ashrReg m
  | .ashrImm => Jit.ashrImm m
  | .endReg32 => Jit.endReg32 m
  | .immLd8 => Jit.immLd8 m
  | .dataLd1 => dataLdN 1 m
  | .dataLd2 => dataLdN 2 m
  | .dataLd4 => dataLdN 4 m
  | .dataIndLd1 => dataIndLdN 1 m
  | .dataIndLd2 => dataIndLdN 2 m
  | .dataIndLd4 => dataIndLdN 4 m
  | .memLdx1 => memLdx p 1 m
  | .memLdx2 => memLdx p 2 m
  | .memLdx4 => memLdx p 4 m
  | .memLdx8 => memLdx p 8 m
  | .memStx1 => memStx p 1 m
  | .memStx2 => memStx p 2 m
  | .memStx4 => Jit.memStx4 p off m
  | .memStx8 => memStx p 8 m
  | .memAtomic4 => memAtomic off false m
  | .memAtomic8 => memAtomic off true m
  | .memSt1 => memSt 1 m
  | .memSt2 => memSt 2 m
  | .memSt4 => memSt 4 m
  | .memSt8 => memSt 8 m
  | .jump => Jit.jump m
  | .jeqImm => Jit.jeqImm m
  | .cmpImm => Jit.cmpImm m
  | .jsetImm => Jit.jsetImm m
  | .jneImm => Jit.jneImm m
  | .jeqReg => Jit.jeqReg m
  | .cmpReg => Jit.cmpReg m
  | .jsetReg => Jit.jsetReg m
  | .jneReg => Jit.jneReg m
  | .jeq32Imm => Jit.jeq32Imm m
  | .call => Jit.call p off m
  | .jmpExit => Jit.jmpExit p m

end NfpDriver.Jit
