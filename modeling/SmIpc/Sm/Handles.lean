import SmIpc.Sm.MessageFifo
import SmIpc.Sm.Tick
import SmIpc.Sm.WindowList

/-! # Handles and addresses

A handle is the address of a window's node, cast to the 32 bits of `HSM`, and `smp_common` casts it back.
On a platform with pointers of `pw` bits this gives the node back exactly if it lies below `2^32`
(`smpCommon_hsmOf`). So handles are faithful, on their way through the ring and the tick table too,
exactly when every live window lies there (`handles_faithful`): always with pointers of 32 bits. -/

namespace SmIpc.Sm

variable {pw : ℕ}

/-- The address of a node, with pointers of `pw` bits: not NULL. -/
abbrev Addr (pw : ℕ) := { a : BitVec pw // a ≠ 0 }

/-- `(HSM)sm`: the cast of a pointer to `u32` keeps its low 32 bits. -/
def hsmOf (a : Addr pw) : Hsm := UInt32.ofBitVec (a.1.setWidth 32)

/-- `smp_common(hsm)`: the cast of a `u32` to a pointer fills up with zeros; `none` for NULL. -/
def smpCommon (pw : ℕ) (hsm : Hsm) : Option (Addr pw) :=
  if h : hsm.toBitVec.setWidth pw = 0 then none else some ⟨hsm.toBitVec.setWidth pw, h⟩

/-- What `smallwin_scheduler` and `express_message` test before they call `run_sm`. -/
def passesTest (fuel : ℕ) (w : Windows (Addr pw)) (hsm : Hsm) : Option Bool :=
  if hsm = skInvalidHsm then some false else smIsSmallwin fuel w (smpCommon pw hsm)

/-- The address a handle is cast to has the low 32 bits of the one it came from. -/
theorem toNat_setWidth_hsmOf (hpw : 32 ≤ pw) (a : Addr pw) :
    ((hsmOf a).toBitVec.setWidth pw).toNat = a.1.toNat % 2 ^ 32 := by
  have hle : 2 ^ 32 ≤ 2 ^ pw := Nat.pow_le_pow_right (by decide) hpw
  have hlt : a.1.toNat % 2 ^ 32 < 2 ^ 32 := Nat.mod_lt _ (by decide)
  rw [hsmOf, BitVec.toNat_setWidth, BitVec.toNat_setWidth,
    Nat.mod_eq_of_lt (Nat.lt_of_lt_of_le hlt hle)]

/-- **A handle is cast back to its node exactly if the node lies below `2^32`.** -/
theorem smpCommon_hsmOf (hpw : 32 ≤ pw) (a : Addr pw) :
    smpCommon pw (hsmOf a) = some a ↔ a.1.toNat < 2 ^ 32 := by
  have hnat := toNat_setWidth_hsmOf hpw a
  constructor
  · intro h
    rw [smpCommon] at h
    split at h
    · cases h
    · have heq : (hsmOf a).toBitVec.setWidth pw = a.1 := congrArg Subtype.val (Option.some.inj h)
      rw [heq] at hnat
      rw [hnat]
      exact Nat.mod_lt _ (by decide)
  · intro hlt
    have heq : (hsmOf a).toBitVec.setWidth pw = a.1 := by
      refine BitVec.eq_of_toNat_eq ?_
      rw [hnat, Nat.mod_eq_of_lt hlt]
    rw [smpCommon, dif_neg (heq ▸ a.2)]
    exact congrArg some (Subtype.ext heq)

/-- The null handle is cast to NULL. -/
theorem smpCommon_invalid (pw : ℕ) : smpCommon pw skInvalidHsm = none := by
  have hzero : skInvalidHsm.toBitVec.setWidth pw = 0 := by
    show (0#32).setWidth pw = 0
    exact BitVec.setWidth_zero pw 32
  rw [smpCommon, dif_pos hzero]

/-- **Handles are faithful**: each is cast back to its node, different windows have different ones, and
they pass the test for a live window wherever they come from. -/
structure HandlesFaithful (fuel : ℕ) (w : Windows (Addr pw)) (l : List (Addr pw)) : Prop where
  /-- `smp_common` gives the node back. -/
  round_trip : ∀ a ∈ l, smpCommon pw (hsmOf a) = some a
  /-- Different windows have different handles. -/
  distinct : ∀ a ∈ l, ∀ b ∈ l, hsmOf a = hsmOf b → a = b
  /-- `sm_is_smallwin(smp_common(h))` is 1. -/
  isSmallwin : ∀ a ∈ l, smIsSmallwin fuel w (smpCommon pw (hsmOf a)) = some true
  /-- Given to `express_message`. -/
  express : ∀ a ∈ l, passesTest fuel w (hsmOf a) = some true
  /-- Posted to a ring with room: it comes out of the other end of the ring. -/
  queued : ∀ a ∈ l, ∀ (q : Msgq) (message param1 param2 : UInt32), q.Valid →
    q.contents.length + 1 < q.size →
    ∃ m, (pushMessage q (hsmOf a) message param1 param2).2.contents = q.contents ++ [m] ∧
      passesTest fuel w m.hsm = some true
  /-- Set in a tick slot, for the messages `sm_ticker` sends. -/
  tick : ∀ a ∈ l, ∀ (ticks : TickList) (n100msec param2 : UInt32) (sysflag : Int32) (i : ℕ),
    freeTick ticks = some i →
    passesTest fuel w
      (((smSetXtick ticks (hsmOf a) n100msec param2 sysflag).2 i).message i).hsm = some true

/-- **Below `2^32` handles are faithful.** -/
theorem HandlesFaithful.of_lt (hpw : 32 ≤ pw) {fuel : ℕ} {w : Windows (Addr pw)}
    {l : List (Addr pw)} (h : w.Holds l) (hfuel : l.length ≤ fuel)
    (hlt : ∀ a ∈ l, a.1.toNat < 2 ^ 32) : HandlesFaithful fuel w l := by
  have hround : ∀ a ∈ l, smpCommon pw (hsmOf a) = some a := fun a ha =>
    (smpCommon_hsmOf hpw a).mpr (hlt a ha)
  have hne : ∀ a ∈ l, hsmOf a ≠ skInvalidHsm := by
    intro a ha hzero
    have hsome := hround a ha
    rw [hzero, smpCommon_invalid] at hsome
    cases hsome
  have hfound : ∀ a ∈ l, smIsSmallwin fuel w (smpCommon pw (hsmOf a)) = some true := by
    intro a ha
    rw [hround a ha, h.isSmallwin hfuel, Option.some.injEq, decide_eq_true_iff]
    exact ⟨a, ha, rfl⟩
  have hpass : ∀ a ∈ l, passesTest fuel w (hsmOf a) = some true := by
    intro a ha
    rw [passesTest, if_neg (hne a ha)]
    exact hfound a ha
  refine ⟨hround, ?_, hfound, hpass, ?_, ?_⟩
  · intro a ha b hb hab
    have heq : some a = some b := by rw [← hround a ha, ← hround b hb, hab]
    exact Option.some.inj heq
  · intro a ha q message param1 param2 hv hroom
    obtain ⟨q', hq', -, hcontents, -⟩ :=
      (Msgq.pushMessage_spec hv (hne a ha) message param1 param2).1 hroom
    refine ⟨⟨hsmOf a, message, param1, param2⟩, ?_, hpass a ha⟩
    rw [hq']
    exact hcontents
  · intro a ha ticks n100msec param2 sysflag i hslot
    simp only [smSetXtick, hslot, Function.update_self]
    exact hpass a ha

/-- **Handles are faithful exactly below `2^32`.** Take any history of creations, with any answers of
`malloc` that are not live, and of destructions, on a platform with pointers of `pw` bits, 32 or more.
The handles of the live windows are faithful if and only if every live window's node lies below
`2^32`. -/
theorem handles_faithful (pw : ℕ) (hpw : 32 ≤ pw) (q : Msgq) (calls : List (WinCall (Addr pw)))
    (os : List (Option (Addr pw))) (l : List (Addr pw))
    (hlive : StepMachine.run WinCall.live [] calls = some (os, l)) (fuel : ℕ)
    (hfuel : calls.length ≤ fuel) :
    ∃ w q', StepMachine.run (WinCall.exec hsmOf fuel) (Windows.empty (Addr pw), q) calls =
        some (os, w, q') ∧
      (HandlesFaithful fuel w l ↔ ∀ a ∈ l, a.1.toNat < 2 ^ 32) := by
  obtain ⟨hlen, w, q', hrun, h⟩ := WinCall.run_holds hsmOf fuel q
    (Windows.Holds.empty (A := Addr pw)) (by simpa using hfuel) hlive
  rw [List.length_nil, Nat.zero_add] at hlen
  refine ⟨w, q', hrun, ?_, HandlesFaithful.of_lt hpw h (by omega)⟩
  intro hfaithful a ha
  exact (smpCommon_hsmOf hpw a).mp (hfaithful.round_trip a ha)

/-- With pointers of 32 bits every address is below `2^32`. -/
theorem Addr.toNat_lt (a : Addr 32) : a.1.toNat < 2 ^ 32 := a.1.isLt

/-- Two windows with pointers of 32 bits. -/
theorem handles_faithful_32 :
    ∃ w q', StepMachine.run (WinCall.exec hsmOf 2)
        (Windows.empty (Addr 32), initMsgq 4 fun _ => ⟨0, 0, 0, 0⟩)
        [.create (some ⟨16, by decide⟩) 0 0 none none,
          .create (some ⟨0xfffffff0, by decide⟩) 0 0 none none] =
        some ([some ⟨16, by decide⟩, some ⟨0xfffffff0, by decide⟩], w, q') ∧
      HandlesFaithful 2 w [⟨16, by decide⟩, ⟨0xfffffff0, by decide⟩] := by
  obtain ⟨w, q', hrun, hiff⟩ := handles_faithful 32 (by decide) (initMsgq 4 fun _ => ⟨0, 0, 0, 0⟩)
    [.create (some ⟨16, by decide⟩) 0 0 none none,
      .create (some ⟨0xfffffff0, by decide⟩) 0 0 none none]
    [some ⟨16, by decide⟩, some ⟨0xfffffff0, by decide⟩] [⟨16, by decide⟩, ⟨0xfffffff0, by decide⟩]
    rfl 2 (by decide)
  exact ⟨w, q', hrun, hiff.mpr fun a _ => a.toNat_lt⟩

/-- **Two windows, one handle.** With pointers of 64 bits, `malloc` hands out two nodes that agree in
their low 32 bits: they get the same handle, it is cast to neither, and `sm_is_smallwin` finds no
window for it. -/
theorem handles_collide :
    ∃ w q', StepMachine.run (WinCall.exec hsmOf 2)
        (Windows.empty (Addr 64), initMsgq 4 fun _ => ⟨0, 0, 0, 0⟩)
        [.create (some ⟨0x100000010, by decide⟩) 0 0 none none,
          .create (some ⟨0x200000010, by decide⟩) 0 0 none none] =
        some ([some ⟨0x100000010, by decide⟩, some ⟨0x200000010, by decide⟩], w, q') ∧
      hsmOf (⟨0x100000010, by decide⟩ : Addr 64) = hsmOf (⟨0x200000010, by decide⟩ : Addr 64) ∧
      smIsSmallwin 2 w (smpCommon 64 (hsmOf (⟨0x100000010, by decide⟩ : Addr 64))) = some false ∧
      ¬ HandlesFaithful 2 w [⟨0x100000010, by decide⟩, ⟨0x200000010, by decide⟩] := by
  refine ⟨_, _, rfl, rfl, rfl, ?_⟩
  intro h
  have hround := h.round_trip ⟨0x100000010, by decide⟩ List.mem_cons_self
  exact absurd hround (by decide)

end SmIpc.Sm
