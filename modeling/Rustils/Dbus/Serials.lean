import Rustils.Dbus.Poison

namespace Rustils.Dbus

open Platform Lib.Fuel Lib.Machine Lib.Utf8 Lib.Trace

inductive Build
  | debug
  | release

def Build.advance : Build → UInt32 → Outcome UInt32
  | .debug, n => addU32 n 1
  | .release, n => pure (n + 1)

section Call

variable (build : Build)

noncomputable def Connection.callIn (conn : Connection) (req : Request) (sock : Socket) :
    Option (Outcome Message × Connection × Socket) :=
  let serial := conn.nextSerial
  match build.advance serial with
  | .error s => some (.error s, conn, sock)
  | .ok nextSerial =>
    match encode (.methodCall serial req) with
    | .error s => some (.error s, { conn with nextSerial }, sock)
    | .ok bytes =>
      match writeAll bytes sock.writes with
      | none => none
      | some (.error s, writes) => some (.error s, { conn with nextSerial }, { sock with writes })
      | some (.ok _, writes) =>
        match awaitReply serial conn.readBuf sock.reads with
        | none => none
        | some (r, readBuf, reads) => some (r, { nextSerial, readBuf }, { reads, writes })

def hello : Request where
  destination := "org.freedesktop.DBus"
  path := "/org/freedesktop/DBus"
  interface := "org.freedesktop.DBus"
  member := "Hello"
  signature := ""
  body := []

def noName : PlatformError := protoErr "Hello did not return the expected unique name"

noncomputable def fromFd (leftover : Slice) (sock : Socket) : Option (Outcome (Connection × String) × Socket) :=
  match Connection.callIn build ⟨1, leftover⟩ hello sock with
  | none => none
  | some (.error s, _, sock) => some (.error s, sock)
  | some (.ok reply, conn, sock) =>
    match reply.body.head? with
    | some (.string name) => some (pure (conn, name), sock)
    | _ => some (fail noName, sock)

end Call

structure Invocation where
  serial : UInt32
  request : Request
  outcome : Outcome Message

variable {build : Build} {conn conn' : Connection} {req : Request} {sock sock' : Socket} {r : Outcome Message}
  {s₀ s s' : Connection × Socket} {l : Invocation} {tr before after : List Invocation}

def Invoke (build : Build) (s : Connection × Socket) (l : Invocation) (s' : Connection × Socket) : Prop :=
  l.serial = s.1.nextSerial ∧ s.1.callIn build l.request s.2 = some (l.outcome, s')

/-- No serial is zero, no increment overflows, and none is the serial of a call before whose reply was not read. -/
def SerialsValid (tr : List Invocation) : Prop :=
  ∀ before l after, tr = before ++ l :: after →
    l.serial ≠ 0 ∧ l.serial.toNat + 1 < 2 ^ 32 ∧ ∀ l' ∈ before, ¬ Replied l'.outcome → l'.serial ≠ l.serial

theorem callIn_cases (h : conn.callIn build req sock = some (r, conn', sock')) :
    build.advance conn.nextSerial = .ok conn'.nextSerial ∨
      (∃ s, build.advance conn.nextSerial = .error s) ∧ conn'.nextSerial = conn.nextSerial := by
  unfold Connection.callIn at h
  dsimp only at h
  cases hnext : build.advance conn.nextSerial with
  | error s =>
    rw [hnext] at h
    cases h
    exact .inr ⟨⟨s, rfl⟩, rfl⟩
  | ok next =>
    left
    rw [hnext] at h
    dsimp only at h
    split at h
    · cases h
      rfl
    · split at h
      · cases h
      · cases h
        rfl
      · split at h
        · cases h
        · cases h
          rfl

theorem Invoke.counts (h : Invoke build s l s') (hlt : s.1.nextSerial.toNat + 1 < 2 ^ 32) :
    s'.1.nextSerial.toNat = s.1.nextSerial.toNat + 1 := by
  have hadvance : ∃ next, build.advance s.1.nextSerial = .ok next ∧ next.toNat = s.1.nextSerial.toNat + 1 := by
    have hsum : (s.1.nextSerial + 1).toNat = s.1.nextSerial.toNat + 1 := by
      rw [UInt32.toNat_add]
      exact Nat.mod_eq_of_lt hlt
    cases build with
    | debug => exact ⟨s.1.nextSerial + 1, if_pos hlt, hsum⟩
    | release => exact ⟨s.1.nextSerial + 1, rfl, hsum⟩
  obtain ⟨next, hok, hnext⟩ := hadvance
  rcases callIn_cases h.2 with h' | ⟨⟨e, h'⟩, -⟩
  · cases hok.symm.trans h'
    exact hnext
  · cases hok.symm.trans h'

theorem counted_of_run (h : Run (Invoke build) s₀ tr s) (hlt : s₀.1.nextSerial.toNat + tr.length < 2 ^ 32) :
    s.1.nextSerial.toNat = s₀.1.nextSerial.toNat + tr.length := by
  induction h with
  | refl => rfl
  | tail _ hs ih =>
    rw [List.length_append, List.length_singleton] at hlt ⊢
    have hn := ih (by omega)
    rw [hs.counts (by omega), hn, Nat.add_assoc]

theorem serial_at (h : Run (Invoke build) s₀ (before ++ l :: after) s)
    (hlt : s₀.1.nextSerial.toNat + before.length < 2 ^ 32) : l.serial.toNat = s₀.1.nextSerial.toNat + before.length := by
  obtain ⟨s₁, s₂, h₁, hs, -⟩ := run_mid.mp h
  rw [hs.1]
  exact counted_of_run h₁ hlt

theorem wrapped_of_run (h : Run (Invoke .release) s₀ tr s) :
    s.1.nextSerial = s₀.1.nextSerial + UInt32.ofNat tr.length := by
  induction h with
  | refl => simp
  | @tail tr s s' l _ hs ih =>
    have hstep : s'.1.nextSerial = s.1.nextSerial + 1 := by
      rcases callIn_cases hs.2 with h' | ⟨⟨e, h'⟩, -⟩
      · exact (Except.ok.inj h').symm
      · cases h'
    rw [hstep, ih, List.length_append, List.length_singleton, UInt32.ofNat_add, UInt32.add_assoc]
    rfl

theorem not_valid_of_long (h : Run (Invoke build) s₀ tr s) (hone : s₀.1.nextSerial = 1)
    (hlong : 2 ^ 32 - 1 ≤ tr.length) : ¬ SerialsValid tr := by
  intro hvalid
  have hstart : s₀.1.nextSerial.toNat = 1 := congrArg UInt32.toNat hone
  have hlen : 2 ^ 32 - 2 < tr.length := by omega
  have hsplit : tr = tr.take (2 ^ 32 - 2) ++ tr[2 ^ 32 - 2] :: tr.drop (2 ^ 32 - 2 + 1) := by
    rw [← List.drop_eq_getElem_cons hlen, List.take_append_drop]
  have htake : (tr.take (2 ^ 32 - 2)).length = 2 ^ 32 - 2 := List.length_take_of_le (Nat.le_of_lt hlen)
  obtain ⟨-, hover, -⟩ := hvalid _ _ _ hsplit
  rw [hsplit] at h
  rw [serial_at h (by rw [htake, hstart]; omega), htake, hstart] at hover
  omega

section Broken

theorem callIn_refused (buf : Slice) (serial : UInt32) (writes : List Write) :
    Connection.callIn .release ⟨serial, buf⟩ getName ⟨[], .error 32 :: writes⟩ =
      some (fail (osErr "write" 32), ⟨serial + 1, buf⟩, ⟨[], writes⟩) := by
  have hwrite : writeAll (Message.methodCall serial getName).frame (.error 32 :: writes) =
      some (fail (osErr "write" 32), writes) := by
    unfold writeAll
    exact if_neg (List.cons_ne_nil _ _)
  unfold Connection.callIn
  simp only [Build.advance, pure_eq_ok, encode_eq_frame (getName_wellFormed serial), hwrite]

theorem refused_calls (n : ℕ) (buf : Slice) (serial : UInt32) :
    ∃ tr s, Run (Invoke .release) (⟨serial, buf⟩, ⟨[], List.replicate n (.error 32)⟩) tr s ∧ tr.length = n := by
  induction n generalizing serial with
  | zero => exact ⟨[], _, .refl, rfl⟩
  | succ n ih =>
    obtain ⟨tr, s, hrun, hlen⟩ := ih (serial + 1)
    refine ⟨⟨serial, getName, fail (osErr "write" 32)⟩ :: tr, s, ?_, by rw [List.length_cons, hlen]⟩
    rw [← List.nil_append (_ :: tr), run_mid]
    refine ⟨_, _, .refl, ⟨rfl, ?_⟩, hrun⟩
    rw [List.replicate_succ]
    exact callIn_refused buf serial _

end Broken

end Rustils.Dbus
