import TsukumoCore.Kernel.Types
import TsukumoCore.Lib.Countdown
import TsukumoCore.Lib.Memory

/-!
# Blocks of bytes: `kernel/memset.c`, `kernel/memcpy.c`

A counter is a number. After `while (n--)` it has wrapped, and nothing reads it.
-/

namespace TsukumoCore

open Countdown Memory

/-- Memory, with the addresses of the word accesses on record. -/
structure Bus where
  mem : Mem
  words : List UINT

namespace Bus

def in_b (b : Bus) (a : UINT) : BitVec 8 := b.mem a

def out_b (b : Bus) (a : UINT) (v : BitVec 8) : Bus := { b with mem := Function.update b.mem a v }

def in_w (b : Bus) (a : UINT) : UINT × Bus := (load b.mem a, { b with words := b.words ++ [a] })

def out_w (b : Bus) (a v : UINT) : Bus := { mem := store b.mem a v, words := b.words ++ [a] }

end Bus

/-! ## `tkmc_memset` -/

/-- `d8`, or `dw` in the loops over words. -/
structure Fill where
  d8 : UINT
  bus : Bus

namespace Fill

/-- `*d8++ = value` -/
def byte (value : BitVec 8) (s : Fill) : Fill := { d8 := s.d8 + 1, bus := s.bus.out_b s.d8 value }

/-- `*dw++ = word_value` -/
def word (word_value : UINT) (s : Fill) : Fill := { d8 := s.d8 + 4, bus := s.bus.out_w s.d8 word_value }

/-- `dw[0]` to `dw[7]`, then `dw += 8` -/
def block (word_value : UINT) (s : Fill) : Fill :=
  { d8 := s.d8 + 32
    bus := (List.range 8).foldl (fun b i => b.out_w (Memory.word s.d8 i) word_value) s.bus }

end Fill

def tkmc_memset (b : Bus) (dest : UINT) (c : Int) (n : UINT) : UINT × Bus :=
  let value := BitVec.ofInt 8 c
  if n.toNat < 32 then (dest, (times (Fill.byte value) n.toNat ⟨dest, b⟩).bus)
  else
    let (n, s) := timesWhile (fun s => s.d8 &&& 0x3 ≠ 0) (Fill.byte value) n.toNat ⟨dest, b⟩
    let (n, s) :=
      if 4 ≤ n then
        let word_value : UINT := value.setWidth 32 * 0x01010101
        let (n, s) := timesBy 32 (Fill.block word_value) n s
        timesBy 4 (Fill.word word_value) n s
      else (n, s)
    (dest, (times (Fill.byte value) n s).bus)

/-- At boot, before any variable is used. -/
def clear_bss (b : Bus) (_bss_start _bss_end : UINT) : Bus := (tkmc_memset b _bss_start 0 (_bss_end - _bss_start)).2

/-! ## `tkmc_memcpy` -/

/-- `d8` and `s8`, or `dw` and `sw` in the loops over words. -/
structure Copy where
  d8 : UINT
  s8 : UINT
  bus : Bus

namespace Copy

/-- `*d8++ = *s8++` -/
def byte (s : Copy) : Copy :=
  { d8 := s.d8 + 1, s8 := s.s8 + 1, bus := s.bus.out_b s.d8 (s.bus.in_b s.s8) }

/-- `*dst = *src` -/
def copy_w (b : Bus) (dst src : UINT) : Bus :=
  let (v, b) := b.in_w src
  b.out_w dst v

/-- `*dw++ = *sw++` -/
def word (s : Copy) : Copy := { d8 := s.d8 + 4, s8 := s.s8 + 4, bus := copy_w s.bus s.d8 s.s8 }

/-- `dw[0]` to `dw[7]`, then both pointers move on -/
def block (s : Copy) : Copy :=
  { d8 := s.d8 + 32
    s8 := s.s8 + 32
    bus := (List.range 8).foldl (fun b i => copy_w b (Memory.word s.d8 i) (Memory.word s.s8 i)) s.bus }

end Copy

def tkmc_memcpy (b : Bus) (dest src n : UINT) : UINT × Bus :=
  if n.toNat < 32 then (dest, (times Copy.byte n.toNat ⟨dest, src, b⟩).bus)
  else if (dest ^^^ src) &&& 0x3 ≠ 0 then (dest, (times Copy.byte n.toNat ⟨dest, src, b⟩).bus)
  else
    let (n, s) := timesWhile (fun s => s.d8 &&& 0x3 ≠ 0) Copy.byte n.toNat ⟨dest, src, b⟩
    let (n, s) := timesBy 32 Copy.block n s
    let (n, s) := timesBy 4 Copy.word n s
    (dest, (times Copy.byte n s).bus)

end TsukumoCore
