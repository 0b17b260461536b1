import Unification.Proofs.Requests
import Unification.Proofs.Unchecked.Basic

/-!
# Counting in machine words

Numbers of made-up symbols are 64-bit words here, and the least unused one is searched
by trying one word after the other.  The search may try any number of words, and there
is no answer where it or the counter would have to go past the last one.

`ends_callsOnWords` says that there is an answer, and that it is that of
`Registry.calls`, as long as the counter stays a word.
-/

namespace Unification
namespace Registry

/-- The word after this one; the last has none. -/
def nextWord? (k : UInt64) : Option UInt64 :=
  if k.toNat + 1 < UInt64.size then some (k + 1) else none

theorem nextWord?_ofNat {k : Nat} (h : k + 1 < UInt64.size) :
    nextWord? (.ofNat k) = some (.ofNat (k + 1)) := by
  have hk : (UInt64.ofNat k).toNat = k := UInt64.toNat_ofNat_of_lt' (by omega)
  rw [nextWord?, hk, if_pos h, UInt64.ofNat_add]
  rfl

/-- Tries one number after the other, from `k` on, until the symbol is unused. -/
def probe? (r : Registry) (stem : String) : Nat → UInt64 → Option UInt64
  | 0, _ => none
  | depth + 1, k =>
    if r.contains (stem ++ toString k) then (nextWord? k).bind (r.probe? stem depth)
    else some k

def makeUp? (depth : Nat) (r : Registry) (stem : String) : Option (Symbol × Registry) := do
  let k ← r.probe? stem depth (.ofNat r.counter)
  let next ← nextWord? k
  let s := Symbol.numbered stem k.toNat
  return (s, { r.insert s with counter := next.toNat })

def callOnWords? (depth : Nat) (r : Registry) (q : Request) : Option Call :=
  match q.stem? r with
  | some stem => (r.makeUp? depth stem).map fun (s, after) => ⟨r, q, .ok s, after⟩
  | none => some (r.call q)

def callsOnWords? (depth : Nat) (r : Registry) : List Request → Option (List Call)
  | [] => some []
  | q :: qs => do
    let c ← r.callOnWords? depth q
    return c :: (← c.after.callsOnWords? depth qs)

variable {r : Registry} {stem : String} {k n : Nat} {q : Request} {qs : List Request}

theorem contains_numbered (hk : k < UInt64.size) :
    r.contains (stem ++ toString (UInt64.ofNat k)) = true ↔ Symbol.numbered stem k ∈ r.symbols := by
  rw [← contains_iff, Symbol.numbered]
  show r.contains (stem ++ toString (UInt64.ofNat k).toNat) = true ↔ _
  rw [UInt64.toNat_ofNat_of_lt' hk]

/-- The search arrives at the first unused number.  Numbers before it are taken, so it
is by going down from it that the search is seen to end. -/
theorem ends_probe (hunused : Symbol.numbered stem n ∉ r.symbols) (hn : n < UInt64.size)
    (htaken : ∀ m, k ≤ m → m < n → Symbol.numbered stem m ∈ r.symbols) (hkn : k ≤ n) :
    Ends (r.probe? stem · (.ofNat k)) (.ofNat n) := by
  induction hkn using Nat.decreasingInduction with
  | self => exact .of_answer fun _ => by rw [probe?, if_neg (mt (contains_numbered hn).1 hunused)]
  | of_succ k hk ih =>
    have hcontains := (contains_numbered (hk.trans hn)).2 (htaken k (Nat.le_refl k) hk)
    refine .of_call (fun depth => ?_) (ih fun m hm => htaken m (Nat.le_of_succ_le hm))
    rw [probe?, if_pos hcontains, nextWord?_ofNat (by omega)]
    rfl

theorem ends_makeUp (h : Symbol.leastUnused stem r.symbols r.counter + 1 < UInt64.size) :
    let k := Symbol.leastUnused stem r.symbols r.counter
    let s := Symbol.numbered stem k
    Ends (r.makeUp? · stem) (s, { r.insert s with counter := k + 1 }) := by
  intro k s
  have hprobe : Ends (r.probe? stem · (.ofNat r.counter)) (.ofNat k) :=
    ends_probe (Symbol.leastUnused_notMem stem r.symbols r.counter) (Nat.lt_of_succ_lt h)
      (fun _ => Symbol.mem_of_lt_leastUnused) (Symbol.le_leastUnused stem r.symbols r.counter)
  filter_upwards [hprobe] with depth hdepth
  have hnext : nextWord? (.ofNat k) = some (.ofNat (k + 1)) := nextWord?_ofNat h
  have hk : (UInt64.ofNat k).toNat = k := UInt64.toNat_ofNat_of_lt' (Nat.lt_of_succ_lt h)
  have hk' : (UInt64.ofNat (k + 1)).toNat = k + 1 := UInt64.toNat_ofNat_of_lt' h
  simp only [makeUp?, hdepth, hnext, hk, hk', Option.bind_eq_bind, Option.bind_some,
    Option.pure_def, s]

theorem ends_callOnWords (h : (r.call q).after.counter < UInt64.size) :
    Ends (r.callOnWords? · q) (r.call q) := by
  cases hq : q.stem? r with
  | none =>
    refine .of_answer fun _ => ?_
    rw [callOnWords?, hq]
  | some stem =>
    rw [call_of_stem hq] at h ⊢
    filter_upwards [ends_makeUp h] with depth hdepth
    rw [callOnWords?, hq]
    simp only [hdepth, Option.map_some]

theorem ends_callsOnWords (h : ∀ c ∈ r.calls qs, c.after.counter < UInt64.size) :
    Ends (r.callsOnWords? · qs) (r.calls qs) := by
  induction qs generalizing r with
  | nil => exact .const _
  | cons q qs ih =>
    obtain ⟨hq, hqs⟩ := List.forall_mem_cons.1 h
    filter_upwards [ends_callOnWords hq, ih hqs] with depth hdepth hdepths
    simp only [callsOnWords?, hdepth, hdepths, Option.bind_eq_bind, Option.bind_some,
      Option.pure_def]
    rfl

end Registry
end Unification
