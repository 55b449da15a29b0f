/-
  DatacenterNetworking.Lib.ByteOrder

  Numbers in the memory of a host of either byte order.  `store` lays a number out
  in a given count of bytes, `load` reads bytes as a number, and a number that
  fits comes back (`load_store`), also from the middle of a longer memory
  (`fetch_append`).
-/

import Mathlib.Algebra.Order.Ring.Nat
import Mathlib.Data.List.Basic

namespace DatacenterNetworking

inductive ByteOrder where
  | little
  | big
  deriving DecidableEq, Repr

/-- The lowest `w` bytes of `n`, the lowest first. -/
def lowBytes : Nat → Nat → List UInt8
  | 0, _ => []
  | w + 1, n => UInt8.ofNat n :: lowBytes w (n / 256)

/-- The number that the bytes are the digits of, the lowest first. -/
def ofLowBytes : List UInt8 → Nat
  | [] => 0
  | b :: bs => b.toNat + 256 * ofLowBytes bs

@[simp] theorem length_lowBytes (w n : Nat) : (lowBytes w n).length = w := by
  induction w generalizing n with
  | zero => rfl
  | succ w ih => rw [lowBytes, List.length_cons, ih]

theorem ofLowBytes_lowBytes (w n : Nat) : ofLowBytes (lowBytes w n) = n % 256 ^ w := by
  induction w generalizing n with
  | zero => exact (Nat.mod_one n).symm
  | succ w ih =>
    have hbyte : (UInt8.ofNat n).toNat = n % 256 := UInt8.toNat_ofNat'
    rw [lowBytes, ofLowBytes, ih, hbyte, Nat.pow_succ, Nat.mul_comm (256 ^ w) 256, Nat.mod_mul]

namespace ByteOrder

/-- The lowest `w` bytes of `n` in memory. -/
def store (o : ByteOrder) (w n : Nat) : List UInt8 :=
  match o with
  | little => lowBytes w n
  | big => (lowBytes w n).reverse

/-- The number that lies in the bytes. -/
def load (o : ByteOrder) (bs : List UInt8) : Nat :=
  match o with
  | little => ofLowBytes bs
  | big => ofLowBytes bs.reverse

/-- The number in the `w` bytes from `off` on. -/
def fetch (o : ByteOrder) (w off : Nat) (mem : List UInt8) : Nat := o.load ((mem.drop off).take w)

@[simp] theorem length_store (o : ByteOrder) (w n : Nat) : (o.store w n).length = w := by
  cases o with
  | little => exact length_lowBytes w n
  | big => rw [store, List.length_reverse, length_lowBytes]

theorem load_store (o : ByteOrder) (w n : Nat) : o.load (o.store w n) = n % 256 ^ w := by
  cases o with
  | little => exact ofLowBytes_lowBytes w n
  | big => rw [load, store, List.reverse_reverse, ofLowBytes_lowBytes]

/-- A number is read back from behind `off` other bytes, whatever follows it. -/
theorem fetch_append (o : ByteOrder) {w off n : Nat} {pre post : List UInt8}
    (hpre : pre.length = off) : o.fetch w off (pre ++ (o.store w n ++ post)) = n % 256 ^ w := by
  rw [fetch, List.drop_left' hpre, List.take_left' (length_store o w n), load_store]

end ByteOrder

end DatacenterNetworking
