import Mathlib
import Aegis.A64.Memory

/-!
# Loops that fill memory

Two loops that write one word after the other: one that counts an index up to a limit and
stores values a fixed step apart, and one that clears everything between two addresses.
Both leave memory as `fill` describes it.
-/

namespace A64

open Foundation

variable {memory : Word → Word} {base : Word} {first n k : ℕ} {value : ℕ → Word}

/-- Memory after `n` words of an array have been written, from word `first` on. -/
def fill (memory : Word → Word) (base : Word) (first : ℕ) (value : ℕ → Word) (n : ℕ) :
    Word → Word :=
  overwrite memory ((List.range n).map fun k => (wordAt base (first + k), value k))

@[simp] theorem fill_zero : fill memory base first value 0 = memory := rfl

theorem fill_succ : fill memory base first value (n + 1) =
    Function.update (fill memory base first value n) (wordAt base (first + n)) (value n) := by
  rw [fill, List.range_succ, List.map_append, overwrite_append]
  rfl

/-- What was written can be read. -/
theorem fill_of_lt (hk : k < n) (hbound : first + n ≤ 2 ^ 61) :
    fill memory base first value n (wordAt base (first + k)) = value k := by
  refine overwrite_of_mem ?_ (List.mem_map.mpr ⟨k, List.mem_range.mpr hk, rfl⟩)
  rw [List.map_map]
  refine List.Nodup.map_on ?_ List.nodup_range
  intro i hi j hj hij
  rw [List.mem_range] at hi hj
  have := wordAt_injective (by omega) (by omega) hij
  omega

/-- The rest of memory is as before. -/
theorem fill_of_ne {a : Word} (h : ∀ k < n, wordAt base (first + k) ≠ a) :
    fill memory base first value n a = memory a := by
  apply overwrite_of_notMem
  intro write hwrite
  obtain ⟨k, hk, rfl⟩ := List.mem_map.mp hwrite
  exact h k (List.mem_range.mp hk)

theorem add_shiftLeft_three (base : Word) (i : ℕ) :
    base + BitVec.ofNat 64 i <<< 3 = wordAt base i := by
  rw [wordAt, ← BitVec.toNat_inj, BitVec.toNat_add, BitVec.toNat_add, BitVec.toNat_shiftLeft,
    BitVec.toNat_ofNat, BitVec.toNat_ofNat, Nat.shiftLeft_eq]
  omega

theorem wordAt_add_eight (base : Word) (i : ℕ) : wordAt base i + 8 = wordAt base (i + 1) := by
  rw [wordAt, wordAt, Nat.mul_add, BitVec.ofNat_add, BitVec.add_assoc]
  rfl

namespace Code

variable {L : Type*} [DecidableEq L] {code rest : Code L} {pc : ℕ} {l : L} {s t : State}

/-! ## Filling an array with an arithmetic progression -/

section FillLoop

variable {b i v : Reg} {step limit : Word}

/-- The body of the loop: store `xv` at index `xi` of the array at `xb`, and advance. -/
def fillBody (b i v : Reg) (step limit : Word) : List Instr := [
  .str (.x v) (.index (.x b) i),
  .add v v (.imm step),
  .add i i (.imm 1),
  .cmp i (.imm limit)]

/-- The state `t` after `k` rounds from the state `s`. -/
structure Filling (s : State) (b i v : Reg) (step : Word) (first k : ℕ) (t : State) : Prop where
  memory : t.memory =
    fill s.memory (s.x b) first (fun k => s.x v + BitVec.ofNat 64 k * step) k
  index : t.x i = BitVec.ofNat 64 (first + k)
  value : t.x v = s.x v + BitVec.ofNat 64 k * step
  others : ∀ r, r ≠ i → r ≠ v → t.x r = s.x r
  sys : t.sys = s.sys

theorem Filling.body (h : Filling s b i v step first k t) (hbi : b ≠ i) (hbv : b ≠ v)
    (hiv : i ≠ v) (aligned : Aligned (s.x b)) :
    ∃ t', execBlock (fillBody b i v step limit) t = some t' ∧
      Filling s b i v step first (k + 1) t' ∧
      t'.flags.zero = (BitVec.ofNat 64 (first + (k + 1)) == limit) := by
  have hb : t.x b = s.x b := h.others b hbi hbv
  have haddress : t.x b + t.x i <<< 3 = wordAt (s.x b) (first + k) := by
    rw [hb, h.index, add_shiftLeft_three]
  have hindex : t.x i + 1 = BitVec.ofNat 64 (first + (k + 1)) := by
    rw [h.index, ← Nat.add_assoc, BitVec.ofNat_add _ 1]
    rfl
  have hvalue : t.x v + step = s.x v + BitVec.ofNat 64 (k + 1) * step := by
    rw [h.value, BitVec.add_assoc, BitVec.ofNat_add k 1, BitVec.add_mul]
    simp
  refine ⟨{ t with
      x := Function.update (Function.update t.x v (t.x v + step)) i (t.x i + 1)
      memory := Function.update t.memory (t.x b + t.x i <<< 3) (t.x v)
      flags := .compare (t.x i + 1) limit }, ?_, ?_, ?_⟩
  · have haligned : Aligned (t.x b + t.x i <<< 3) := haddress ▸ aligned.wordAt _
    simp [execBlock, fillBody, Instr.exec, State.address, State.base, State.source, State.store,
      State.moveBase, State.operand, State.set, haligned, hiv]
  · constructor
    · show Function.update t.memory _ _ = _
      rw [h.memory, haddress, h.value, fill_succ]
    · show Function.update _ i _ i = _
      rw [Function.update_self, hindex]
    · show Function.update _ i _ v = _
      rw [Function.update_of_ne hiv.symm, Function.update_self, hvalue]
    · intro r hri hrv
      show Function.update _ i _ r = _
      rw [Function.update_of_ne hri, Function.update_of_ne hrv, h.others r hri hrv]
    · exact h.sys
  · show (t.x i + 1 == limit) = _
    rw [hindex]

/-- **The filling loop** stores the rest of the array and leaves the other registers
alone. -/
theorem Reaches.fillLoop {count : ℕ} (hlabel : code.lineOf l = pc)
    (hcode : code.drop pc = Line.label l ::
      ((fillBody b i v step (BitVec.ofNat 64 count)).map Line.instr ++ .branch .ne l :: rest))
    (hbi : b ≠ i) (hbv : b ≠ v) (hiv : i ≠ v) (aligned : Aligned (s.x b))
    (hfirst : s.x i = BitVec.ofNat 64 first) (hlt : first < count) (hcount : count < 2 ^ 61) :
    ∃ t, code.Reaches (pc, s) (pc + 6, t) ∧ Filling s b i v step first (count - first) t := by
  have hbody : code.drop (pc + 1) =
      (fillBody b i v step (BitVec.ofNat 64 count)).map Line.instr ++ .branch .ne l :: rest := by
    rw [← List.tail_drop, hcode, List.tail_cons]
  have hhead : code[pc]? = some (.label l) := by
    rw [← List.head?_drop, hcode, List.head?_cons]
  have hbranch : code[pc + 5]? = some (.branch .ne l) := by
    rw [← List.getElem?_drop, hcode]
    rfl
  -- a round ends at the branch, which goes back until the index has reached the limit
  have round : ∀ k t, Filling s b i v step first k t →
      ∃ t', code.Reaches (pc, t) (pc + 5, t') ∧ Filling s b i v step first (k + 1) t' ∧
        t'.flags.zero = (BitVec.ofNat 64 (first + (k + 1)) == BitVec.ofNat 64 count) := by
    intro k t ht
    obtain ⟨t', hexec, ht', hzero⟩ := ht.body hbi hbv hiv aligned
    exact ⟨t', (Reaches.label hhead).trans (Reaches.block hbody hexec), ht', hzero⟩
  obtain ⟨t, hreach, ht⟩ : ∃ t, code.Reaches (pc, s) (pc, t) ∧
      Filling s b i v step first (count - first - 1) t :=
    Reaches.loop (Filling s b i v step first) (fun k hk t ht => by
      obtain ⟨t', hreach, ht', hzero⟩ := round k t ht
      refine ⟨t', hreach.trans ?_, ht'⟩
      have hback : Cond.ne.holds t' = true := by
        rw [Cond.holds, hzero, Bool.not_eq_true', beq_eq_false_iff_ne]
        intro heq
        have hnat := congrArg BitVec.toNat heq
        rw [BitVec.toNat_ofNat, BitVec.toNat_ofNat] at hnat
        omega
      have hjump := Reaches.branch hbranch hback
      rwa [hlabel] at hjump)
    ⟨rfl, by rw [hfirst]; rfl, by simp, fun r _ _ => rfl, rfl⟩
  obtain ⟨t', hlast, ht', hzero⟩ := round _ t ht
  have hcountdown : count - first - 1 + 1 = count - first := by omega
  rw [hcountdown] at ht' hzero
  refine ⟨t', (hreach.trans hlast).trans (Reaches.fallThrough hbranch ?_), ht'⟩
  rw [Cond.holds, hzero, Nat.add_sub_cancel' hlt.le, beq_self_eq_true]
  rfl

end FillLoop

/-! ## Clearing everything between two addresses -/

section ClearLoop

variable {a e : Reg} {exit : L}

/-- The loop: while `xa` is below `xe`, store a zero at `xa` and advance. -/
def clearLoop (a e : Reg) (l exit : L) : Code L := [
  .label l,
  .instr (.cmp a (.x e)),
  .branch .hs exit,
  .instr (.str .xzr (.post a 8)),
  .branch .always l]

/-- The state `t` after `k` rounds from the state `s`. -/
structure Clearing (s : State) (a e : Reg) (k : ℕ) (t : State) : Prop where
  memory : t.memory = fill s.memory (s.x a) 0 (fun _ => 0) k
  address : t.x a = wordAt (s.x a) k
  limit : t.x e = s.x e
  sys : t.sys = s.sys

/-- The comparison at the head of the loop. -/
theorem Clearing.compare (h : Clearing s a e k t) :
    Clearing s a e k { t with flags := .compare (t.x a) (t.x e) } :=
  ⟨h.memory, h.address, h.limit, h.sys⟩

theorem Clearing.clear (h : Clearing s a e k t) (hae : a ≠ e) (aligned : Aligned (s.x a)) :
    ∃ t', Instr.exec (.str .xzr (.post a 8)) t = some t' ∧ Clearing s a e (k + 1) t' := by
  have haligned : Aligned (t.x a) := h.address ▸ aligned.wordAt k
  refine ⟨{ t with
      x := Function.update t.x a (t.x a + 8)
      memory := Function.update t.memory (t.x a) 0 }, ?_, ?_⟩
  · simp [Instr.exec, State.address, State.source, State.store, State.moveBase, State.set,
      haligned]
  · constructor
    · show Function.update t.memory _ _ = _
      rw [fill_succ, ← h.memory, h.address, Nat.zero_add]
    · show Function.update t.x a _ a = _
      rw [Function.update_self, h.address, wordAt_add_eight]
    · show Function.update t.x a _ e = _
      rw [Function.update_of_ne hae.symm, h.limit]
    · exact h.sys

/-- **The clearing loop** clears every word that begins before the end. -/
theorem Reaches.clearLoop (hlabel : code.lineOf l = pc)
    (hcode : code.drop pc = Code.clearLoop a e l exit ++ rest) (hae : a ≠ e)
    (aligned : Aligned (s.x a)) (hend : (s.x e).toNat + 8 ≤ 2 ^ 64) :
    ∃ t, code.Reaches (pc, s) (code.lineOf exit, t) ∧
      Clearing s a e (((s.x e).toNat - (s.x a).toNat + 7) / 8) t := by
  have hline : ∀ j, code[pc + j]? = (Code.clearLoop a e l exit ++ rest)[j]? := by
    intro j
    rw [← List.getElem?_drop, hcode]
  -- to the branch, which leaves the loop if the address has reached the end
  have test : ∀ k t, Clearing s a e k t → ∃ t', code.Reaches (pc, t) (pc + 2, t') ∧
      Clearing s a e k t' ∧ t'.flags.carry = decide (s.x e ≤ wordAt (s.x a) k) := by
    intro k t ht
    refine ⟨_, (Reaches.label (hline 0)).trans (Reaches.step ?_), ht.compare, ?_⟩
    · rw [Code.step, hline 1]
      rfl
    · rw [ht.address, ht.limit]
      rfl
  set n := ((s.x e).toNat - (s.x a).toNat + 7) / 8 with hn
  have hbefore : ∀ k ≤ n, (wordAt (s.x a) k).toNat = (s.x a).toNat + 8 * k := by
    intro k hk
    have := (s.x a).isLt
    exact toNat_wordAt (by omega)
  obtain ⟨t, hreach, ht⟩ : ∃ t, code.Reaches (pc, s) (pc, t) ∧ Clearing s a e n t :=
    Reaches.loop (Clearing s a e) (fun k hk t ht => by
      obtain ⟨u, htest, hu, hcarry⟩ := test k t ht
      obtain ⟨v, hstore, hv⟩ := hu.clear hae aligned
      have hcontinue : Cond.hs.holds u = false := by
        rw [Cond.holds, hcarry, decide_eq_false_iff_not, BitVec.le_def, hbefore k hk.le]
        omega
      have hbranch := Reaches.fallThrough (hline 2) hcontinue
      have hback : code.Reaches (pc + 4, v) (pc, v) := by
        have := Reaches.branch (s := v) (hline 4) rfl
        rwa [hlabel] at this
      refine ⟨v, ((htest.trans hbranch).trans (Reaches.step ?_)).trans hback, hv⟩
      rw [Code.step, hline 3]
      show (Instr.exec (.str .xzr (.post a 8)) u).map _ = _
      rw [hstore]
      rfl)
    ⟨rfl, by simp [wordAt], rfl, rfl⟩
  obtain ⟨u, htest, hu, hcarry⟩ := test n t ht
  have hstop : Cond.hs.holds u = true := by
    rw [Cond.holds, hcarry, decide_eq_true_eq, BitVec.le_def, hbefore n le_rfl]
    omega
  exact ⟨u, (hreach.trans htest).trans (Reaches.branch (hline 2) hstop), hu⟩

end ClearLoop

end Code

end A64
