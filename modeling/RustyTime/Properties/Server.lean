import RustyTime.Daemon.Server

/-!
# What one request does to the server

* `buildReplyIn_of_reaches` — what each disposition makes of a request
* `buildReplyIn_cases` — every way through `build_reply_in`
-/

namespace RustyTime

set_option linter.unusedSectionVars false

variable {K R : Type} [DecidableEq K] [Field R] [LinearOrder R] [FloorRing R]

/-- A request that reaches the rate limiter: a client's, well formed, while the clock reads. -/
structure Reaches (request : List UInt8) (clock : ClockReadings R) (parsed : NtpPacket)
    (nowMono : R) : Prop where
  length : headerLen ≤ request.length
  parse : NtpPacket.parse request = .ok parsed
  mode : parsed.mode = .client
  monoS : clock.monoS = some nowMono

/-- The limiter lets the request through to be answered. -/
def AdmittedToRespond (guard : ServerState K R) (request : List UInt8) (peer : SocketAddr K)
    (clock : ClockReadings R) : Prop :=
  ∃ parsed nowMono, Reaches request clock parsed nowMono ∧
    (guard.clients.admitHandle (clientKey peer) nowMono).2.1 = .respond

variable {request : List UInt8} {guard : ServerState K R} {clock : ClockReadings R}
  {parsed : NtpPacket} {nowMono : R}

/-- The state once a request is through the limiter or stopped by it. -/
def admitted (guard : ServerState K R) (peer : SocketAddr K) (nowMono : R) : ServerState K R :=
  { guard with clients := (guard.clients.admitHandle (clientKey peer) nowMono).1 }

/-- A request that reaches the limiter is dealt with by its disposition. -/
theorem buildReplyIn_of_reaches (h : Reaches request clock parsed nowMono) (aead : Aead)
    (peer : SocketAddr K) (recvTs : NtpTimestamp) (random : SystemRandom)
    {disposition : Disposition} {handle : ClientHandle}
    (hgate : (guard.clients.admitHandle (clientKey peer) nowMono).2 = (disposition, handle)) :
    (disposition = .kissOfDeath → buildReplyIn aead request peer recvTs guard clock random =
        (admitted guard peer nowMono, some ⟨.plain (kissOfDeath parsed recvTs), handle⟩)) ∧
      (disposition = .drop → buildReplyIn aead request peer recvTs guard clock random =
        (admitted guard peer nowMono, none)) ∧
      (disposition = .respond → buildReplyIn aead request peer recvTs guard clock random =
        respond aead request parsed recvTs (admitted guard peer nowMono) handle clock random) := by
  have htriple : guard.clients.admitHandle (clientKey peer) nowMono =
      ((guard.clients.admitHandle (clientKey peer) nowMono).1, disposition, handle) :=
    Prod.ext rfl hgate
  unfold buildReplyIn
  dsimp only
  rw [if_neg (Nat.not_lt.mpr h.length), h.parse]
  dsimp only
  rw [if_neg (not_not.mpr h.mode), h.monoS]
  dsimp only
  rw [htriple]
  refine ⟨?_, ?_, ?_⟩ <;> rintro rfl <;> rfl

omit [DecidableEq K] in
/-- What is answered does not depend on what the table notes of it. -/
theorem respond_snd (aead : Aead) (request : List UInt8) (parsed : NtpPacket)
    (recvTs : NtpTimestamp) (guard : ServerState K R) (handle : ClientHandle)
    (clock : ClockReadings R) (random : SystemRandom) :
    ∃ (guard' : ServerState K R) (mode : ResponseMode), guard'.ring = guard.ring ∧
      (respond aead request parsed recvTs guard handle clock random).2 =
        (answer aead request parsed recvTs guard' mode clock random).map
          fun bytes => ⟨bytes, handle⟩ :=
  ⟨_, _, rfl, rfl⟩

theorem buildReplyIn_of_admitted {peer : SocketAddr K}
    (h : AdmittedToRespond guard request peer clock) (aead : Aead) (recvTs : NtpTimestamp)
    (random : SystemRandom) :
    ∃ (parsed : NtpPacket) (guard' : ServerState K R) (mode : ResponseMode) (handle : ClientHandle),
      guard'.ring = guard.ring ∧
      (buildReplyIn aead request peer recvTs guard clock random).2 =
        (answer aead request parsed recvTs guard' mode clock random).map
          fun bytes => ⟨bytes, handle⟩ := by
  obtain ⟨parsed, nowMono, hreaches, hrespond⟩ := h
  obtain ⟨-, -, hbuild⟩ :=
    buildReplyIn_of_reaches hreaches aead peer recvTs random (Prod.ext hrespond rfl)
  obtain ⟨guard', mode, hring, hanswer⟩ :=
    respond_snd aead request parsed recvTs (admitted guard peer nowMono)
      (guard.clients.admitHandle (clientKey peer) nowMono).2.2 clock random
  exact ⟨parsed, guard', mode, _, hring, by rw [hbuild rfl, hanswer]⟩

/-- **Every way through `build_reply_in`**: refused or unread, limited with a kiss or without, or
answered. -/
theorem buildReplyIn_cases (aead : Aead) (request : List UInt8) (peer : SocketAddr K)
    (recvTs : NtpTimestamp) (guard : ServerState K R) (clock : ClockReadings R)
    (random : SystemRandom) :
    buildReplyIn aead request peer recvTs guard clock random =
        ({ guard with clients := guard.clients.noteRefused }, none) ∨
      buildReplyIn aead request peer recvTs guard clock random = (guard, none) ∨
      ∃ parsed nowMono disposition handle, Reaches request clock parsed nowMono ∧
        (guard.clients.admitHandle (clientKey peer) nowMono).2 = (disposition, handle) := by
  rcases Nat.lt_or_ge request.length headerLen with hshort | hlong
  · refine .inl ?_
    unfold buildReplyIn
    exact if_pos hshort
  · have hlen : ¬request.length < headerLen := Nat.not_lt.mpr hlong
    cases hparse : NtpPacket.parse request with
    | error e =>
      refine .inl ?_
      unfold buildReplyIn
      dsimp only
      rw [if_neg hlen, hparse]
    | ok parsed =>
      by_cases hmode : parsed.mode = .client
      · cases hmono : clock.monoS with
        | none =>
          refine .inr (.inl ?_)
          unfold buildReplyIn
          dsimp only
          rw [if_neg hlen, hparse, hmono]
          exact if_neg (not_not.mpr hmode)
        | some nowMono =>
          exact .inr (.inr ⟨parsed, nowMono, _, _, ⟨hlong, hparse, hmode, hmono⟩, rfl⟩)
      · refine .inl ?_
        unfold buildReplyIn
        dsimp only
        rw [if_neg hlen, hparse]
        exact if_pos hmode

end RustyTime
