import Kbuf.Device.Meters

namespace Kbuf

-- The largest occupancy seen, after one more call on `dev`. A RESET and a
-- RESIZE that goes through start over from the depth at that moment.
def markAfter (mark : Nat) (dev : Dev) (call : Call) : Nat :=
  match call, (exec dev call).2 with
  | .reset, _ => occupancy (exec dev call).1
  | .resize _, .status (.ok ()) => occupancy (exec dev call).1
  | _, _ => max mark (occupancy (exec dev call).1)

def highWater (mark : Nat) (dev : Dev) : List Call → Nat
  | [] => mark
  | call :: calls => highWater (markAfter mark dev call) (exec dev call).1 calls

section Append

theorem execAll_concat (dev : Dev) (calls : List Call) (call : Call) :
    (execAll dev (calls ++ [call])).1 = (exec (execAll dev calls).1 call).1 := by
  induction calls generalizing dev with
  | nil => rfl
  | cons first calls ih => exact ih (exec dev first).1

theorem highWater_concat (mark : Nat) (dev : Dev) (calls : List Call) (call : Call) :
    highWater mark dev (calls ++ [call]) =
      markAfter (highWater mark dev calls) (execAll dev calls).1 call := by
  induction calls generalizing mark dev with
  | nil => rfl
  | cons first calls ih => exact ih (markAfter mark dev first) (exec dev first).1

end Append

-- The blocking ring's `count` is not kept up in SPSC mode: it stays where the
-- switch left it.
def SpscIdle (dev : Dev) : Prop := dev.mode = .SPSC → dev.count = 0

variable {dev : Dev}

theorem spscIdle_read (h : SpscIdle dev) (u : UserRead) : SpscIdle (kbufRead dev u).1 := by
  intro hm
  unfold kbufRead at hm ⊢
  cases hmode : dev.mode with
  | SPSC =>
      have hcount := h hmode
      simp only [spscConsume]
      split
      · exact hcount
      · split <;> exact hcount
  | BLOCKING =>
      simp only [hmode] at hm
      split at hm
      · exact absurd (hmode.symm.trans hm) (by decide)
      · exact absurd (hmode.symm.trans ((ringConsume_mode u).symm.trans hm)) (by decide)

theorem spscIdle_write (h : SpscIdle dev) (u : UserWrite) : SpscIdle (kbufWrite dev u).1 := by
  intro hm
  unfold kbufWrite at hm ⊢
  cases hmode : dev.mode with
  | SPSC =>
      have hcount := h hmode
      simp only [spscProduce]
      split
      · exact hcount
      · split <;> exact hcount
  | BLOCKING =>
      simp only [hmode] at hm
      split at hm
      · exact absurd (hmode.symm.trans hm) (by decide)
      · exact absurd (hmode.symm.trans ((ringProduce_mode _).symm.trans hm)) (by decide)

theorem spscIdle_exec (h : SpscIdle dev) (call : Call) : SpscIdle (exec dev call).1 := by
  cases call with
  | read u => exact spscIdle_read h u
  | write u => exact spscIdle_write h u
  | resize rq =>
      simp only [exec, iocResize]
      split
      · exact h
      split
      · exact h
      split
      · exact h
      · rename_i hswap
        obtain ⟨-, rfl⟩ := resizeSwap_ok hswap
        exact fun _ => rfl
  | smode arg =>
      simp only [exec, iocSmode]
      split
      · exact h
      split
      · exact h
      · rename_i hswitch
        obtain ⟨-, -, rfl⟩ := smodeSwitch_ok hswitch
        exact fun _ => rfl
  | reset => exact h
  | getstats fault => exact h
  | poll => exact h

theorem spscIdle_execAll (calls : List Call) : SpscIdle (execAll freshDev calls).1 := by
  induction calls using List.reverseRecOn with
  | nil =>
      intro _
      rfl
  | append_singleton calls call ih =>
      rw [execAll_concat]
      exact spscIdle_exec ih call

theorem wellformed_execAll (calls : List Call) : Wellformed (execAll freshDev calls).1 := by
  obtain ⟨h, -⟩ := execAll_refines freshDev_wellformed calls
  exact h

-- The mark is what the device reports as its peak, and lies between the depth
-- and the capacity.
structure Marked (mark : Nat) (dev : Dev) : Prop where
  peak_eq : dev.peakCount = mark
  le_peak : occupancy dev ≤ dev.peakCount
  peak_le : dev.peakCount ≤ dev.numBuffers

-- RESET takes the depth from `count`, which is the depth of one mode only.
def ResetSeesDepth (dev : Dev) : Prop := dev.mode = .BLOCKING ∨ occupancy dev = 0

theorem toUnsigned_count_iff (hi : SpscIdle dev) :
    toUnsigned dev.count = occupancy dev ↔ ResetSeesDepth dev := by
  unfold ResetSeesDepth occupancy
  cases hm : dev.mode with
  | SPSC =>
      rw [hi hm]
      simp [toUnsigned, eq_comm]
  | BLOCKING => simp

theorem markAfter_of_not_settles {mark : Nat} {call : Call}
    (hs : settles call (exec dev call).2 = false) :
    markAfter mark dev call = max mark (occupancy (exec dev call).1) := by
  unfold markAfter
  split
  · cases hs
  · rename_i hret
    rw [hret] at hs
    cases hs
  · rfl

theorem marked_exec {mark : Nat} (h : Wellformed dev) (hm : Marked mark dev) (call : Call)
    (hreset : call = .reset → toUnsigned dev.count = occupancy dev) :
    Marked (markAfter mark dev call) (exec dev call).1 := by
  obtain ⟨h', -⟩ := exec_refined h call
  have hocc := occupancy_eq h
  have hocc' := occupancy_eq h'
  have hroom := queue_length_le h'
  obtain ⟨hpeak, hle, hnum⟩ := hm
  have ho := exec_outcome h call
  generalize hret : (exec dev call).2 = ret at ho
  cases ho with
  | consumed u out message hq hn hmeters =>
      have hp : (exec dev (.read u)).1.peakCount = dev.peakCount :=
        congrArg Meters.peakCount hmeters
      have hlen := congrArg List.length hq
      rw [List.length_cons] at hlen
      simp only [markAfter]
      constructor <;> omega
  | produced u message hq hn hmeters =>
      have hp : (exec dev (.write u)).1.peakCount =
          max dev.peakCount (queue (exec dev (.write u)).1).length :=
        congrArg Meters.peakCount hmeters
      simp only [markAfter]
      constructor <;> omega
  | resized rq hq hq' hmeters =>
      have hp : (exec dev (.resize rq)).1.peakCount = 0 := congrArg Meters.peakCount hmeters
      have hlen := congrArg List.length hq'
      rw [List.length_nil] at hlen
      simp only [markAfter, hret]
      constructor <;> omega
  | reset hnext =>
      have hdepth := hreset rfl
      have hp : (exec dev .reset).1.peakCount = toUnsigned dev.count := rfl
      have hsame : occupancy (exec dev .reset).1 = occupancy dev := rfl
      simp only [markAfter]
      constructor <;> omega
  | quiet _ _ hs hq hn hmeters =>
      have hp : (exec dev call).1.peakCount = dev.peakCount := congrArg Meters.peakCount hmeters
      have hlen := congrArg List.length hq
      rw [markAfter_of_not_settles (hret ▸ hs)]
      constructor <;> omega

theorem marked_freshDev : Marked (occupancy freshDev) freshDev :=
  ⟨rfl, Nat.le_refl _, Nat.zero_le _⟩

theorem marked_of_resets (calls : List Call)
    (hresets : ∀ first, first ++ [.reset] <+: calls →
      ResetSeesDepth (execAll freshDev first).1) :
    Marked (highWater (occupancy freshDev) freshDev calls) (execAll freshDev calls).1 := by
  -- The last call is split off: the state before it is the one a RESET is judged by.
  induction calls using List.reverseRecOn with
  | nil => exact marked_freshDev
  | append_singleton calls call ih =>
      have hlast := ih fun first hf => hresets first (hf.trans (List.prefix_append _ _))
      rw [execAll_concat, highWater_concat]
      refine marked_exec (wellformed_execAll calls) hlast call ?_
      rintro rfl
      exact (toUnsigned_count_iff (spscIdle_execAll calls)).mpr
        (hresets calls (List.prefix_refl _))

-- A RESET on a filled SPSC ring reports a peak of zero, and that is the only way
-- the peak can differ from the high-water mark.
theorem peak_is_high_water_iff (calls : List Call) :
    (∀ first, first <+: calls →
      (execAll freshDev first).1.peakCount = highWater (occupancy freshDev) freshDev first ∧
        occupancy (execAll freshDev first).1 ≤ (execAll freshDev first).1.peakCount ∧
        (execAll freshDev first).1.peakCount ≤ (execAll freshDev first).1.numBuffers) ↔
      ∀ first, first ++ [.reset] <+: calls →
        (execAll freshDev first).1.mode = .BLOCKING ∨ occupancy (execAll freshDev first).1 = 0 := by
  constructor
  · intro hpeak first hf
    obtain ⟨heq, -, -⟩ := hpeak _ hf
    rw [execAll_concat, highWater_concat] at heq
    exact (toUnsigned_count_iff (spscIdle_execAll first)).mp heq
  · intro hresets first hf
    have hm := marked_of_resets first fun earlier he => hresets earlier (he.trans hf)
    exact ⟨hm.peak_eq, hm.le_peak, hm.peak_le⟩

def resetOnFilledRing : List Call :=
  [.smode ⟨false, 1⟩, .write ⟨[7], 1⟩, .reset]

-- One message is queued when the statistics are reset, and the peak drops to zero.
theorem reset_loses_depth :
    (execAll freshDev resetOnFilledRing).1.peakCount = 0 ∧
      occupancy (execAll freshDev resetOnFilledRing).1 = 1 ∧
      highWater (occupancy freshDev) freshDev resetOnFilledRing = 1 := by
  refine ⟨?_, ?_, ?_⟩ <;> rfl

end Kbuf
