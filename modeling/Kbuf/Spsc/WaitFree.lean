import Kbuf.Lib.Termination
import Kbuf.Poll.Deadlock

namespace Kbuf

open Interleaving

section Countdown

-- How many steps an O_NONBLOCK read still takes at most. It never gets to sleep.
def SpscReadPc.left (count : Nat) : SpscReadPc → Nat
  | .empty => count + 12
  | .emptyCons _ => count + 11
  | .consume => count + 10
  | .len .. => count + 9
  | .copy f => f.len - f.out.length + 8
  | .publish _ => 7
  | .bytesLoad _ => 6
  | .bytesStore .. => 5
  | .msgsLoad _ => 4
  | .msgsStore .. => 3
  | .trace _ => 2
  | .wake _ => 1
  | .sleep | .wait _ => 0

def SpscWritePc.left (count : Nat) : SpscWritePc → Nat
  | .clamp => count + 15
  | .full => count + 14
  | .fullCons _ => count + 13
  | .produce => count + 12
  | .copy _ i => count - i + 11
  | .setLen _ => 10
  | .publish _ => 9
  | .bytesLoad _ => 8
  | .bytesStore .. => 7
  | .msgsLoad _ => 6
  | .msgsStore .. => 5
  | .occ _ => 4
  | .peak _ => 3
  | .peakStore _ => 2
  | .wake => 1
  | .sleep | .wait _ => 0

def Local.left : Local → Nat
  | .readSpsc true u pc => pc.left u.count
  | .writeSpsc true u pc => pc.left u.count
  | _ => 0

def Local.returned (here : Local) : Prop := ∃ ret, here = .done ret

end Countdown

section Steps

variable {u : UserRead} {v : UserWrite} {me : Nat} {w w' : World}

-- A step leads to the return, or to where fewer steps are left.
theorem SpscReadMove.left_lt {pc : SpscReadPc} {next : Next SpscReadPc}
    (h : SpscReadMove true u me w pc w' next) (hinside : 0 < pc.left u.count) :
    (∃ ret, next = .ret ret) ∨
      ∃ pc', next = .to pc' ∧ 0 < pc'.left u.count ∧ pc'.left u.count < pc.left u.count := by
  cases h with
  | again | copyFault | wake => exact .inl ⟨_, rfl⟩
  | block _ hn => cases hn
  | sleep | wait => exact absurd hinside (Nat.lt_irrefl 0)
  | len =>
      refine .inr ⟨_, rfl, ?_, ?_⟩ <;> simp only [SpscReadPc.left, List.length_nil] <;> omega
  | copyByte hl =>
      refine .inr ⟨_, rfl, ?_, ?_⟩ <;>
        simp only [SpscReadPc.left, List.length_append, List.length_singleton] <;> omega
  | empty | ready | consume | copyDone | publish | bytesLoad | bytesStore | msgsLoad | msgsStore
  | trace =>
      refine .inr ⟨_, rfl, ?_, ?_⟩ <;> simp only [SpscReadPc.left] <;> omega

theorem SpscWriteMove.left_lt {pc : SpscWritePc} {next : Next (UserWrite × SpscWritePc)}
    (h : SpscWriteMove true v me w pc w' next) (hinside : 0 < pc.left v.count) :
    (∃ ret, next = .ret ret) ∨
      ∃ v' pc', next = .to (v', pc') ∧ 0 < pc'.left v'.count ∧
        pc'.left v'.count < pc.left v.count := by
  cases h with
  | again | copyFault | wake => exact .inl ⟨_, rfl⟩
  | block _ hn => cases hn
  | sleep | wait => exact absurd hinside (Nat.lt_irrefl 0)
  | clamp =>
      -- buffer_size may cut the count down, never up
      have hle : (v.clamp w.dev.bufferSize).count ≤ v.count := by
        simp only [UserWrite.clamp]
        split <;> omega
      refine .inr ⟨_, _, rfl, ?_, ?_⟩ <;> simp only [SpscWritePc.left] <;> omega
  | full | ready | produce | copyByte | copyDone | setLen | publish | bytesLoad | bytesStore
  | msgsLoad | msgsStore | occ | peakHigher | peakKept | peakStore =>
      refine .inr ⟨_, _, rfl, ?_, ?_⟩ <;> simp only [SpscWritePc.left] <;> omega

theorem Local.spsc_of_left {here : Local} (h : 0 < here.left) :
    (∃ u pc, here = .readSpsc true u pc ∧ 0 < pc.left u.count) ∨
      ∃ v pc, here = .writeSpsc true v pc ∧ 0 < pc.left v.count := by
  cases here with
  | readSpsc nonblock u pc =>
      cases nonblock with
      | true => exact .inl ⟨u, pc, rfl, h⟩
      | false => exact absurd h (Nat.lt_irrefl 0)
  | writeSpsc nonblock v pc =>
      cases nonblock with
      | true => exact .inr ⟨v, pc, rfl, h⟩
      | false => exact absurd h (Nat.lt_irrefl 0)
  | idle | readEntry | readBlocking | writeEntry | writeBlocking | resize | smode | reset | getstats
  | poll | done => exact absurd h (Nat.lt_irrefl 0)

theorem driver_countdown {choice : Choice} {here : Local} {next : World × Local}
    (hinside : 0 < here.left) (h : driver me choice here w = some next) :
    next.2.returned ∨ 0 < next.2.left ∧ next.2.left < here.left := by
  rcases Local.spsc_of_left hinside with ⟨u, pc, rfl, hpc⟩ | ⟨v, pc, rfl, hpc⟩
  · obtain ⟨⟨w', out⟩, hstep, rfl⟩ := Option.map_eq_some_iff.mp h
    rcases (readSpscStep_move hstep).left_lt hpc with ⟨ret, rfl⟩ | ⟨pc', rfl, hlt⟩
    · exact .inl ⟨ret, rfl⟩
    · exact .inr hlt
  · obtain ⟨⟨w', out⟩, hstep, rfl⟩ := Option.map_eq_some_iff.mp h
    rcases (writeSpscStep_move hstep).left_lt hpc with ⟨ret, rfl⟩ | ⟨v', pc', rfl, hlt⟩
    · exact .inl ⟨ret, rfl⟩
    · exact .inr hlt

-- Unlike the calls of `driver_go`, these wait neither for the lock nor for a wakeup.
theorem driver_go_of_left {here : Local} (hinside : 0 < here.left) :
    (driver me .go here w).isSome = true := by
  rcases Local.spsc_of_left hinside with ⟨u, pc, rfl, hpc⟩ | ⟨v, pc, rfl, hpc⟩
  · simp only [driver, Option.isSome_map]
    refine readSpscStep_go fun hasleep => ?_
    subst hasleep
    exact absurd hpc (Nat.lt_irrefl 0)
  · simp only [driver, Option.isSome_map]
    refine writeSpscStep_go fun hasleep => ?_
    subst hasleep
    exact absurd hpc (Nat.lt_irrefl 0)

end Steps

-- A write beside a reset that has taken the lock and stops there.
def besideLock : List (Act Choice) :=
  ⟨2, .start .reset⟩ :: proceed 2 1 ++ ⟨0, .start (.write true ⟨[7, 8], 2⟩)⟩ :: proceed 0 1

end Kbuf
