import Hiqlite.Lib.Path

/-!
# H1 — the handshake of a connection

Both sides share a secret and answer the challenge of the other side with its hash. Neither hash says
who computes it, for whom, or in which session.

The network is the attacker's. It cannot guess a challenge before it is sent, and it has the hash of
something with the secret only if an honest party has sent it.

* **`handshake_authenticates`**: where it does not mix sessions; `sessions_are_oracles`.
-/

namespace Hiqlite.Network

open List Option Function

abbrev Bytes := List UInt8

/-! ## Messages -/

-- SHA-256 hashes are values of `R`. A vector of another length than 32 is `none`.
variable {R : Type}

structure ChallengeResponse (R : Type) where
  nodeId : ℕ
  challenge : Bytes
  response : Option R
  deriving DecidableEq

structure ResponseFinal (R : Type) where
  response : Option R
  deriving DecidableEq

def cmpConstantTime [DecidableEq R] : Option R → Option R → Bool
  | some a, some b => a = b
  | _, _ => false

theorem cmpConstantTime_some [DecidableEq R] {a : Option R} {b : R} :
    cmpConstantTime a (some b) = true ↔ a = some b := by
  cases a <;> simp [cmpConstantTime]

section Messages

variable (sha256 : Bytes → R) (secret : Bytes)

/-- `ChallengeResponse::new`, with the salt that it takes. -/
def ChallengeResponse.new (nodeId : ℕ) (challenge salt : Bytes) : ChallengeResponse R :=
  ⟨nodeId, salt, some (sha256 (challenge ++ secret))⟩

variable [DecidableEq R]

def ChallengeResponse.verify (m : ChallengeResponse R) (challenge : Bytes) :
    Option (ResponseFinal R) :=
  if cmpConstantTime m.response (some (sha256 (challenge ++ secret))) then
    some ⟨some (sha256 (m.challenge ++ secret))⟩
  else none

def ResponseFinal.verify (r : ResponseFinal R) (m : ChallengeResponse R) : Bool :=
  cmpConstantTime r.response (some (sha256 (m.challenge ++ secret)))

end Messages

/-! ## Sessions -/

/-- A delivered frame. What cannot be read as the expected message is `other`. -/
inductive Frame (R : Type)
  | challenge (c : Bytes)
  | challengeResponse (m : ChallengeResponse R)
  | responseFinal (r : ResponseFinal R)
  | other

structure Server (R : Type) where
  challenge : Bytes
  received : Option (ChallengeResponse R)
  result : Option (Option ℕ)

structure Client (R : Type) where
  nodeId : ℕ
  answered : Option (Bytes × ChallengeResponse R)
  result : Option Bool

structure Net (R : Type) where
  servers : ℕ → Option (Server R)
  clients : ℕ → Option (Client R)
  seen : List Bytes
  sent : List R

inductive Move (R : Type)
  | accept (i : ℕ) (salt : Bytes)
  | connect (j : ℕ) (nodeId : ℕ)
  | toServer (i : ℕ) (f : Frame R)
  | toClient (j : ℕ) (f : Frame R) (salt : Bytes)

namespace Net

variable (sha256 : Bytes → R) (secret : Bytes)

def start : Net R := ⟨fun _ => none, fun _ => none, [], []⟩

section Step

variable [DecidableEq R]

def serve (s : Net R) (i : ℕ) (server : Server R) : Frame R → Net R
  | .challengeResponse m =>
    match m.verify sha256 secret server.challenge with
    | some final =>
      { s with
        servers := update s.servers i
          (some { server with received := some m, result := some (some m.nodeId) })
        seen := m.challenge :: s.seen
        sent := final.response.toList ++ s.sent }
    | none =>
      { s with
        servers := update s.servers i
          (some { server with received := some m, result := some none })
        seen := m.challenge :: s.seen }
  | _ => { s with servers := update s.servers i (some { server with result := some none }) }

def answer (s : Net R) (j : ℕ) (client : Client R) (salt : Bytes) : Frame R → Net R
  | .challenge c =>
    { s with
      clients := update s.clients j (some { client with
        answered := some (c, .new sha256 secret client.nodeId c salt) })
      seen := salt :: c :: s.seen
      sent := sha256 (c ++ secret) :: s.sent }
  | _ => { s with clients := update s.clients j (some { client with result := some false }) }

def conclude (s : Net R) (j : ℕ) (client : Client R) (m : ChallengeResponse R) : Frame R → Net R
  | .responseFinal r =>
    { s with
      clients := update s.clients j
        (some { client with result := some (r.verify sha256 secret m) }) }
  | _ => { s with clients := update s.clients j (some { client with result := some false }) }

def step (s : Net R) : Move R → Option (Net R)
  | .accept i salt =>
    match s.servers i with
    | none => some { s with
        servers := update s.servers i (some ⟨salt, none, none⟩)
        seen := salt :: s.seen }
    | some _ => none
  | .connect j nodeId =>
    match s.clients j with
    | none => some { s with clients := update s.clients j (some ⟨nodeId, none, none⟩) }
    | some _ => none
  | .toServer i f =>
    match s.servers i with
    | some server => if server.result.isNone then some (s.serve sha256 secret i server f) else none
    | none => none
  | .toClient j f salt =>
    match s.clients j with
    | some client =>
      match client.result, client.answered with
      | none, none => some (s.answer sha256 secret j client salt f)
      | none, some (_, m) => some (s.conclude sha256 secret j client m f)
      | some _, _ => none
    | none => none

end Step

/-! ## The attacker -/

/-- The attacker has hashes that were sent, or that are not made with the secret. -/
def Has (s : Net R) (r : Option R) : Prop := ∀ h, r = some h → h ∈ s.sent ∨ ∀ x, h ≠ sha256 (x ++ secret)

def Makes (s : Net R) : Frame R → Prop
  | .challengeResponse m => s.Has sha256 secret m.response
  | .responseFinal r => s.Has sha256 secret r.response
  | _ => True

/-- The attacker can deliver what it can make, and salts are new. -/
def Able (s : Net R) : Move R → Prop
  | .accept _ salt => salt ∉ s.seen
  | .connect _ _ => True
  | .toServer _ f => s.Makes sha256 secret f
  | .toClient _ (.challenge c) salt => salt ≠ c ∧ salt ∉ s.seen
  | .toClient _ f _ => s.Makes sha256 secret f

def Step [DecidableEq R] (s : Net R) (m : Move R) (t : Net R) : Prop :=
  s.step sha256 secret m = some t ∧ s.Able sha256 secret m

def Answered (s : Net R) (nodeId : ℕ) (c : Bytes) (m : ChallengeResponse R) : Prop :=
  ∃ j client, s.clients j = some client ∧ client.nodeId = nodeId ∧ client.answered = some (c, m)

def Accepted (s : Net R) (m : ChallengeResponse R) : Prop :=
  ∃ i server, s.servers i = some server ∧ server.received = some m ∧
    server.result = some (some m.nodeId)

/-- **Both sides know each other.** -/
structure Authentic (s : Net R) : Prop where
  server : ∀ i server nodeId, s.servers i = some server → server.result = some (some nodeId) →
    ∃ m, s.Answered nodeId server.challenge m
  client : ∀ j client, s.clients j = some client → client.result = some true →
    ∃ c m, client.answered = some (c, m) ∧ s.Accepted m

/-- Sessions are not mixed: no server is asked the challenge of a server, no client that of a client,
and the hash of a client stays in a message that a client has sent. -/
def Relayed (s : Net R) : Move R → Prop
  | .toServer _ (.challengeResponse m) =>
      (∀ k server, s.servers k = some server → m.challenge ≠ server.challenge) ∧
      ∀ nodeId c m', s.Answered nodeId c m' → m.response = m'.response →
        ∃ nodeId' c', s.Answered nodeId' c' m
  | .toClient _ (.challenge c) _ => ∀ nodeId c' m, s.Answered nodeId c' m → m.challenge ≠ c
  | _ => True

/-! ## What the sessions keep -/

variable {sha256 secret} {s t : Net R} {nodeId : ℕ} {c c' : Bytes} {m m' : ChallengeResponse R}

/-- What one session was told, and what is left of it in the others. -/
structure Inv (sha256 : Bytes → R) (secret : Bytes) (s : Net R) : Prop where
  sent : ∀ h ∈ s.sent, ∃ x, h = sha256 (x ++ secret) ∧
    ((∃ nodeId m, s.Answered nodeId x m) ∨ ∃ m, s.Accepted m ∧ m.challenge = x)
  answered : ∀ nodeId c m, s.Answered nodeId c m →
    m.nodeId = nodeId ∧ m.response = some (sha256 (c ++ secret)) ∧ c ∈ s.seen ∧ m.challenge ∈ s.seen
  salts : ∀ nodeId nodeId' c c' m m', s.Answered nodeId c m → s.Answered nodeId' c' m' →
    (m.challenge = m'.challenge → m = m') ∧ m.challenge ≠ c'
  accepted : ∀ m, s.Accepted m → ∃ nodeId c, s.Answered nodeId c m
  asked : ∀ m, s.Accepted m → ∀ i server, s.servers i = some server → m.challenge ≠ server.challenge
  authentic : s.Authentic

theorem Inv.start : (start : Net R).Inv sha256 secret where
  sent h hh := nomatch hh
  answered nodeId c m h := by
    obtain ⟨j, client, hj, -⟩ := h
    cases hj
  salts _ _ _ _ _ _ h := by
    obtain ⟨j, client, hj, -⟩ := h
    cases hj
  accepted m h := by
    obtain ⟨i, server, hi, -⟩ := h
    cases hi
  asked m h i server hi := nomatch hi
  authentic := ⟨fun i server nodeId hi => (nomatch hi), fun j client hj => (nomatch hj)⟩

/-- Sessions go on: none forgets what it has answered or accepted. -/
structure Grows (s t : Net R) : Prop where
  clients : ∀ j client, s.clients j = some client → ∃ client', t.clients j = some client' ∧
    client'.nodeId = client.nodeId ∧ ∀ a, client.answered = some a → client'.answered = some a
  servers : ∀ i server, s.servers i = some server → ∃ server', t.servers i = some server' ∧
    ∀ n, server.result = some n → server' = server

theorem Grows.answered (h : Grows s t) (ha : s.Answered nodeId c m) : t.Answered nodeId c m := by
  obtain ⟨j, client, hj, hid, ha⟩ := ha
  obtain ⟨client', hj', hid', ha'⟩ := h.clients j client hj
  exact ⟨j, client', hj', hid'.trans hid, ha' _ ha⟩

theorem Grows.accepted (h : Grows s t) (ha : s.Accepted m) : t.Accepted m := by
  obtain ⟨i, server, hi, hr, hres⟩ := ha
  obtain ⟨server', hi', hsame⟩ := h.servers i server hi
  obtain rfl := hsame _ hres
  exact ⟨i, server', hi', hr, hres⟩

variable {j i : ℕ} {seen : List Bytes}

theorem Grows.client {sent : List R} {new : Client R} (hnew : ∀ client, s.clients j = some client →
      new.nodeId = client.nodeId ∧ ∀ a, client.answered = some a → new.answered = some a) :
    Grows s ⟨s.servers, update s.clients j (some new), seen, sent⟩ where
  clients k client hk := by
    rcases eq_or_ne k j with rfl | hne
    · exact ⟨new, by simp, hnew client hk⟩
    · exact ⟨client, by simpa [hne] using hk, rfl, fun _ h => h⟩
  servers i server hi := ⟨server, hi, fun _ _ => rfl⟩

theorem Grows.server {sent : List R} {new : Server R}
    (hnew : ∀ server, s.servers i = some server → server.result = none) :
    Grows s ⟨update s.servers i (some new), s.clients, seen, sent⟩ where
  clients j client hj := ⟨client, hj, rfl, fun _ h => h⟩
  servers k server hk := by
    rcases eq_or_ne k i with rfl | hne
    · exact ⟨new, by simp, fun n hn => by simp [hnew server hk] at hn⟩
    · exact ⟨server, by simpa [hne] using hk, fun _ _ => rfl⟩

section

variable (h : s.Inv sha256 secret)
include h

theorem Inv.quiet (hgrows : Grows s t)
    (hanswered : ∀ nodeId c m, t.Answered nodeId c m → s.Answered nodeId c m)
    (haccepted : ∀ i server nodeId, t.servers i = some server → server.result = some (some nodeId) →
      s.servers i = some server)
    (hasked : ∀ m, s.Accepted m → ∀ i server, t.servers i = some server →
      m.challenge ≠ server.challenge)
    (hok : ∀ j client, t.clients j = some client → client.result = some true →
      ∃ c m, client.answered = some (c, m) ∧ t.Accepted m) (hseen : ∀ x ∈ s.seen, x ∈ t.seen)
    (hsent : t.sent = s.sent) : t.Inv sha256 secret where
  sent x hx := by
    obtain ⟨y, heq, hy⟩ := h.sent x (hsent ▸ hx)
    refine ⟨y, heq, ?_⟩
    rcases hy with ⟨n, m, hm⟩ | ⟨m, hm, hc⟩
    · exact .inl ⟨n, m, hgrows.answered hm⟩
    · exact .inr ⟨m, hgrows.accepted hm, hc⟩
  answered n c m hm := by
    obtain ⟨hid, hr, hc, hs⟩ := h.answered n c m (hanswered _ _ _ hm)
    exact ⟨hid, hr, hseen _ hc, hseen _ hs⟩
  salts n n' c c' m m' hm hm' := h.salts n n' c c' m m' (hanswered _ _ _ hm) (hanswered _ _ _ hm')
  accepted m hm := by
    obtain ⟨i, server, hi, hr, hres⟩ := hm
    obtain ⟨n, c, ha⟩ := h.accepted m ⟨i, server, haccepted _ _ _ hi hres, hr, hres⟩
    exact ⟨n, c, hgrows.answered ha⟩
  asked m hm := by
    obtain ⟨i, server, hi, hr, hres⟩ := hm
    exact hasked m ⟨i, server, haccepted _ _ _ hi hres, hr, hres⟩
  authentic := by
    refine ⟨fun i server n hi hres => ?_, hok⟩
    obtain ⟨m, hm⟩ := h.authentic.server i server n (haccepted _ _ _ hi hres) hres
    exact ⟨m, hgrows.answered hm⟩

theorem Inv.done (hgrows : Grows s t) {client : Client R} (hj : s.clients j = some client)
    (hres : client.result = some true) : ∃ c m, client.answered = some (c, m) ∧ t.Accepted m := by
  obtain ⟨c, m, ha, hm⟩ := h.authentic.client j client hj hres
  exact ⟨c, m, ha, hgrows.accepted hm⟩

theorem Inv.setServer {new : Server R}
    (hold : ∀ server, s.servers i = some server → server.result = none)
    (hasked : ∀ m, s.Accepted m → m.challenge ≠ new.challenge)
    (hnew : ∀ nodeId, new.result ≠ some (some nodeId)) (hseen : ∀ x ∈ s.seen, x ∈ seen) :
    (⟨update s.servers i (some new), s.clients, seen, s.sent⟩ : Net R).Inv sha256 secret := by
  have hgrows : Grows s ⟨update s.servers i (some new), s.clients, seen, s.sent⟩ :=
    .server hold
  refine h.quiet hgrows (fun _ _ _ hm => hm) (fun k server n hk hres => ?_)
    (fun m hm k server hk => ?_) (fun j client hj hres => h.done hgrows hj hres) hseen rfl
  · rcases eq_or_ne k i with rfl | hne
    · obtain rfl : new = server := by simpa using hk
      exact absurd hres (hnew n)
    · simpa [hne] using hk
  · rcases eq_or_ne k i with rfl | hne
    · obtain rfl : new = server := by simpa using hk
      exact hasked m hm
    · exact h.asked m hm k server (by simpa [hne] using hk)

theorem Inv.setClient {new : Client R} (hold : ∀ client, s.clients j = some client →
      new.nodeId = client.nodeId ∧ new.answered = client.answered)
    (hnew : s.clients j = none → new.answered = none)
    (hok : new.result = some true → ∃ c m, new.answered = some (c, m) ∧ s.Accepted m) :
    (⟨s.servers, update s.clients j (some new), s.seen, s.sent⟩ : Net R).Inv sha256
      secret := by
  have hgrows : Grows s ⟨s.servers, update s.clients j (some new), s.seen, s.sent⟩ :=
    .client fun client hj => ⟨(hold client hj).1, fun a ha => (hold client hj).2.trans ha⟩
  refine h.quiet hgrows (fun n c m hm => ?_) (fun k server n hk _ => hk) h.asked
    (fun k client hk hres => ?_) (fun _ hx => hx) rfl
  · obtain ⟨k, client, hk, hid, ha⟩ := hm
    rcases eq_or_ne k j with rfl | hne
    · obtain rfl : new = client := by simpa using hk
      cases hclient : s.clients k with
      | none =>
        rw [hnew hclient] at ha
        cases ha
      | some client =>
        obtain ⟨hid', ha'⟩ := hold client hclient
        exact ⟨k, client, hclient, hid'.symm.trans hid, ha'.symm.trans ha⟩
    · exact ⟨k, client, by simpa [hne] using hk, hid, ha⟩
  · rcases eq_or_ne k j with rfl | hne
    · obtain rfl : new = client := by simpa using hk
      obtain ⟨c, m, ha, hm⟩ := hok hres
      exact ⟨c, m, ha, hgrows.accepted hm⟩
    · exact h.done hgrows (by simpa [hne] using hk) hres

end

variable (hinj : Injective sha256)

include hinj

theorem eq_of_sha256 (h : sha256 (c ++ secret) = sha256 (c' ++ secret)) : c = c' :=
  append_cancel_right (hinj h)

section

variable (h : s.Inv sha256 secret)
include h

/-- **What fits the challenge of a server** is the answer of a client: no server has sent it. -/
theorem Inv.answered_of_sent {server : Server R} (hi : s.servers i = some server)
    (hsent : sha256 (server.challenge ++ secret) ∈ s.sent) :
    ∃ nodeId m, s.Answered nodeId server.challenge m ∧
      m.response = some (sha256 (server.challenge ++ secret)) := by
  obtain ⟨x, heq, hx⟩ := h.sent _ hsent
  obtain rfl := eq_of_sha256 hinj heq
  rcases hx with ⟨n, m, hm⟩ | ⟨m, hm, hc⟩
  · exact ⟨n, m, hm, (h.answered _ _ _ hm).2.1⟩
  · exact absurd hc (h.asked m hm i server hi)

theorem Inv.accept {server : Server R} (hi : s.servers i = some server)
    (hres : server.result = none) (hanswered : ∃ nodeId c, s.Answered nodeId c m)
    (hasked : ∀ k server, s.servers k = some server → m.challenge ≠ server.challenge)
    (hresponse : m.response = some (sha256 (server.challenge ++ secret))) : (⟨update s.servers i
        (some { server with received := some m, result := some (some m.nodeId) }), s.clients,
      m.challenge :: s.seen, sha256 (m.challenge ++ secret) :: s.sent⟩ : Net R).Inv sha256
      secret := by
  obtain ⟨n, c, hm⟩ := hanswered
  obtain ⟨rfl, hr, -⟩ := h.answered n c m hm
  obtain rfl : c = server.challenge := eq_of_sha256 hinj (some.inj (hr.symm.trans hresponse))
  set t : Net R := ⟨_, _, _, _⟩ with ht
  have hgrows : Grows s t := .server fun server' hi' => by
    rw [hi] at hi'
    cases hi'
    exact hres
  have haccepted : t.Accepted m := ⟨i, _, update_self .., rfl, rfl⟩
  have hold : ∀ m', t.Accepted m' → m' = m ∨ s.Accepted m' := by
    rintro m' ⟨k, server', hk, hr', hres'⟩
    rcases eq_or_ne k i with rfl | hne
    · simp only [ht, update_self] at hk
      cases hk
      exact .inl (some.inj hr').symm
    · exact .inr ⟨k, server', by simpa [ht, hne] using hk, hr', hres'⟩
  refine ⟨fun x hx => ?_, fun n' c' m' hm' => ?_, h.salts, fun m' hm' => ?_, fun m' hm' k server' hk => ?_,
    fun k server' n' hk hk' => ?_, fun j client hj hok => h.done hgrows hj hok⟩
  · rcases mem_cons.mp hx with rfl | hx
    · exact ⟨m.challenge, rfl, .inr ⟨m, haccepted, rfl⟩⟩
    · obtain ⟨y, heq, hy⟩ := h.sent x hx
      refine ⟨y, heq, ?_⟩
      rcases hy with ⟨n', m', hm'⟩ | ⟨m', hm', hc⟩
      · exact .inl ⟨n', m', hm'⟩
      · exact .inr ⟨m', hgrows.accepted hm', hc⟩
  · obtain ⟨hid, hr', hc, hs⟩ := h.answered n' c' m' hm'
    exact ⟨hid, hr', mem_cons_of_mem _ hc, mem_cons_of_mem _ hs⟩
  · rcases hold m' hm' with rfl | hm'
    · exact ⟨_, _, hm⟩
    · exact h.accepted m' hm'
  · obtain ⟨old, hold', heq⟩ : ∃ old, s.servers k = some old ∧
        server'.challenge = old.challenge := by
      rcases eq_or_ne k i with rfl | hne
      · simp only [ht, update_self] at hk
        cases hk
        exact ⟨server, hi, rfl⟩
      · exact ⟨server', by simpa [ht, hne] using hk, rfl⟩
    rw [heq]
    rcases hold m' hm' with rfl | hm'
    · exact hasked k old hold'
    · exact h.asked m' hm' k old hold'
  · rcases eq_or_ne k i with rfl | hne
    · simp only [ht, update_self] at hk
      cases hk
      cases hk'
      exact ⟨m, hm⟩
    · exact h.authentic.server k server' n' (by simpa [ht, hne] using hk) hk'

omit hinj in
theorem Inv.reply {client : Client R} {salt : Bytes} (hj : s.clients j = some client)
    (hnone : client.answered = none) (hres : client.result = none)
    (hrelayed : ∀ nodeId c' m, s.Answered nodeId c' m → m.challenge ≠ c) (hsalt : salt ≠ c)
    (hfresh : salt ∉ s.seen) : (⟨s.servers, update s.clients j (some { client with
        answered := some (c, .new sha256 secret client.nodeId c salt) }), salt :: c :: s.seen,
      sha256 (c ++ secret) :: s.sent⟩ : Net R).Inv sha256 secret := by
  set new : ChallengeResponse R := .new sha256 secret client.nodeId c salt with hnew
  set t : Net R := ⟨_, _, _, _⟩ with ht
  have hgrows : Grows s t := .client fun client' hj' => by
    rw [hj] at hj'
    cases hj'
    exact ⟨rfl, fun a ha => by rw [hnone] at ha; cases ha⟩
  have hself : t.Answered client.nodeId c new := ⟨j, _, update_self .., rfl, rfl⟩
  -- an answer is an old one, or the new one
  have hold : ∀ n c' m, t.Answered n c' m → s.Answered n c' m ∨ n = client.nodeId ∧ c' = c ∧ m = new := by
    rintro n c' m ⟨k, client', hk, hid, ha⟩
    rcases eq_or_ne k j with rfl | hne
    · simp only [ht, update_self] at hk
      cases hk
      cases ha
      exact .inr ⟨hid.symm, rfl, rfl⟩
    · exact .inl ⟨k, client', by simpa [ht, hne] using hk, hid, ha⟩
  refine ⟨fun x hx => ?_, fun n c' m hm => ?_, fun n n' c1 c2 m m' hm hm' => ?_, fun m hm => ?_,
    h.asked, fun i server n hi hres => ?_, fun k client' hk hok => ?_⟩
  · rcases mem_cons.mp hx with rfl | hx
    · exact ⟨c, rfl, .inl ⟨_, _, hself⟩⟩
    · obtain ⟨y, heq, hy⟩ := h.sent x hx
      refine ⟨y, heq, ?_⟩
      rcases hy with ⟨n', m', hm'⟩ | ⟨m', hm', hc⟩
      · exact .inl ⟨n', m', hgrows.answered hm'⟩
      · exact .inr ⟨m', hgrows.accepted hm', hc⟩
  · rcases hold n c' m hm with hm | ⟨rfl, rfl, rfl⟩
    · obtain ⟨hid, hr, hc, hs⟩ := h.answered n c' m hm
      exact ⟨hid, hr, by simp [ht, hc], by simp [ht, hs]⟩
    · exact ⟨rfl, rfl, by simp [ht], by simp [ht, hnew, ChallengeResponse.new]⟩
  · have hchallenge : new.challenge = salt := rfl
    rcases hold n c1 m hm with hm1 | ⟨-, -, rfl⟩
    · rcases hold n' c2 m' hm' with hm2 | ⟨-, rfl, rfl⟩
      · exact h.salts n n' c1 c2 m m' hm1 hm2
      · obtain ⟨-, -, -, hs⟩ := h.answered n c1 m hm1
        rw [hchallenge]
        exact ⟨fun heq => absurd (heq ▸ hs) hfresh, hrelayed n c1 m hm1⟩
    · rw [hchallenge]
      rcases hold n' c2 m' hm' with hm2 | ⟨-, rfl, rfl⟩
      · obtain ⟨-, -, hc, hs⟩ := h.answered n' c2 m' hm2
        exact ⟨fun heq => absurd (heq ▸ hs) hfresh, fun heq => hfresh (heq ▸ hc)⟩
      · exact ⟨fun _ => rfl, hsalt⟩
  · obtain ⟨n, c', ha⟩ := h.accepted m hm
    exact ⟨n, c', hgrows.answered ha⟩
  · obtain ⟨m, hm⟩ := h.authentic.server i server n hi hres
    exact ⟨m, hgrows.answered hm⟩
  · rcases eq_or_ne k j with rfl | hne
    · simp only [ht, update_self] at hk
      cases hk
      rw [hres] at hok
      cases hok
    · exact h.done hgrows (by simpa [ht, hne] using hk) hok

/-- **What a client accepts** was sent by a server that has accepted the client. -/
theorem Inv.accepted_of_sent (hm : s.Answered nodeId c m)
    (hsent : sha256 (m.challenge ++ secret) ∈ s.sent) : s.Accepted m := by
  obtain ⟨x, heq, hx⟩ := h.sent _ hsent
  obtain rfl := eq_of_sha256 hinj heq
  rcases hx with ⟨n', m', hm'⟩ | ⟨m', hm', hc⟩
  · exact absurd rfl (h.salts _ _ _ _ _ _ hm hm').2
  · obtain ⟨n', c', ha⟩ := h.accepted m' hm'
    rwa [(h.salts _ _ _ _ _ _ hm ha).1 hc.symm]

theorem Inv.step [DecidableEq R] {l : Move R} (hstep : s.Step sha256 secret l t)
    (hrelayed : s.Relayed l) : t.Inv sha256 secret := by
  obtain ⟨hrun, hable⟩ := hstep
  cases l with
  | accept i salt =>
    simp only [Net.step] at hrun
    split at hrun
    · rename_i hi
      cases hrun
      -- a salt is new, and what a server has accepted was seen
      have hnew : ∀ m, s.Accepted m → m.challenge ≠ salt := fun m hm heq => by
        obtain ⟨n, c, ha⟩ := h.accepted m hm
        exact hable (heq ▸ (h.answered n c m ha).2.2.2)
      exact h.setServer (fun server hs => by rw [hi] at hs; cases hs) hnew (by simp)
        fun x hx => mem_cons_of_mem _ hx
    · cases hrun
  | connect j n =>
    simp only [Net.step] at hrun
    split at hrun
    · rename_i hj
      cases hrun
      exact h.setClient (fun client hs => by rw [hj] at hs; cases hs) (fun _ => rfl) (by simp)
    · cases hrun
  | toServer i f =>
    simp only [Net.step] at hrun
    split at hrun
    · rename_i server hi
      split_ifs at hrun with hres
      cases hrun
      rw [isNone_iff_eq_none] at hres
      have hold : ∀ server', s.servers i = some server' → server'.result = none := fun server' hs => by
        rw [hi] at hs
        cases hs
        exact hres
      have hkeep : ∀ m, s.Accepted m → m.challenge ≠ server.challenge := fun m hm =>
        h.asked m hm i server hi
      cases f with
      | challengeResponse m =>
        simp only [serve, ChallengeResponse.verify, cmpConstantTime_some]
        split_ifs with hresponse
        · rcases hable _ hresponse with hsent | hfree
          · obtain ⟨n, m', hm', hr⟩ := h.answered_of_sent hinj hi hsent
            exact h.accept hinj hi hres (hrelayed.2 n _ m' hm' (hresponse.trans hr.symm)) hrelayed.1
              hresponse
          · exact absurd rfl (hfree server.challenge)
        · exact h.setServer hold hkeep (by simp) fun x hx => mem_cons_of_mem _ hx
      | _ => exact h.setServer hold hkeep (by simp) fun x hx => hx
    · cases hrun
  | toClient j f salt =>
    simp only [Net.step] at hrun
    split at hrun
    · rename_i client hj
      have hkeep : ∀ client', s.clients j = some client' →
          client.nodeId = client'.nodeId ∧ client.answered = client'.answered := fun client' hs => by
        rw [hj] at hs
        cases hs
        exact ⟨rfl, rfl⟩
      have hsome : s.clients j = none → client.answered = none := fun hn => by
        rw [hj] at hn
        cases hn
      split at hrun
      · rename_i hres hnone
        cases hrun
        cases f with
        | challenge c => exact h.reply hj hnone hres hrelayed hable.1 hable.2
        | _ => exact h.setClient hkeep hsome (by simp)
      · rename_i c m hres ha
        cases hrun
        cases f with
        | responseFinal r =>
          refine h.setClient hkeep hsome fun hok => ⟨c, m, ha, ?_⟩
          have hr : r.response = some (sha256 (m.challenge ++ secret)) :=
            cmpConstantTime_some.mp (some.inj hok)
          rcases hable _ hr with hsent | hfree
          · exact h.accepted_of_sent hinj ⟨j, client, hj, rfl, ha⟩ hsent
          · exact absurd rfl (hfree m.challenge)
        | _ => exact h.setClient hkeep hsome (by simp)
      · cases hrun
    · cases hrun

end

end Net

/-- **The handshake authenticates both sides** in every run of the attacker in which sessions are not
mixed. -/
theorem handshake_authenticates [DecidableEq R] (sha256 : Bytes → R)
    (hinj : Injective sha256) (secret : Bytes) (moves : List (Move R)) (s : Net R)
    (hrun : Path (fun s l t => s.Step sha256 secret l t ∧ s.Relayed l) Net.start moves s) :
    s.Authentic :=
  (hrun.invariant (I := fun _ => Net.Inv sha256 secret) .start
    fun _ _ _ _ h hstep => h.step hinj hstep.1 hstep.2).authentic

/-! ## Runs of the attacker -/

/-- The attacker uses hashes that were sent. A hash is what is hashed. -/
def Net.uses (s : Net Bytes) : Move Bytes → Bool
  | .accept _ salt => salt ∉ s.seen
  | .connect _ _ => true
  | .toServer _ (.challengeResponse m) | .toClient _ (.challengeResponse m) _ =>
    m.response.all (· ∈ s.sent)
  | .toServer _ (.responseFinal r) | .toClient _ (.responseFinal r) _ => r.response.all (· ∈ s.sent)
  | .toServer _ _ | .toClient _ .other _ => true
  | .toClient _ (.challenge c) salt => salt ≠ c ∧ salt ∉ s.seen

def Net.usingStep (secret : Bytes) (s : Net Bytes) (l : Move Bytes) : Option (Net Bytes) :=
  if s.uses l then s.step id secret l else none

theorem Net.step_of_usingStep {secret : Bytes} {s t : Net Bytes} {l : Move Bytes}
    (h : s.usingStep secret l = some t) : s.Step id secret l t := by
  unfold usingStep at h
  split_ifs at h with huses
  refine ⟨h, ?_⟩
  have has : ∀ r : Option Bytes, (r.all (· ∈ s.sent)) = true → s.Has id secret r := fun r hr x hx => by
    rw [hx] at hr
    exact .inl (by simpa using hr)
  cases l with
  | accept i salt => simpa [uses, Able] using huses
  | connect j n => trivial
  | toServer i f =>
    cases f with
    | challengeResponse | responseFinal => exact has _ huses
    | _ => trivial
  | toClient j f salt =>
    cases f with
    | challenge c => simpa [uses, Able] using huses
    | challengeResponse | responseFinal => exact has _ huses
    | other => trivial

/-- A client's answer makes the first server answer the challenge of the second, and a client
answers that of a client. -/
def mixed : List (Move Bytes) :=
  [.accept 0 [1], .accept 1 [2], .connect 0 5, .toClient 0 (.challenge [1]) [3],
    .toServer 0 (.challengeResponse ⟨5, [2], some [1, 9]⟩),
    .toServer 1 (.challengeResponse ⟨7, [0], some [2, 9]⟩),
    .connect 1 6, .toClient 1 (.challenge [3]) [4],
    .toClient 0 (.responseFinal ⟨some [3, 9]⟩) []]

def afterMixed : Net Bytes where
  servers :=
    update (update (update (update (fun _ => none)
      0 (some ⟨[1], none, none⟩))
      1 (some ⟨[2], none, none⟩))
      0 (some ⟨[1], some ⟨5, [2], some [1, 9]⟩, some (some 5)⟩))
      1 (some ⟨[2], some ⟨7, [0], some [2, 9]⟩, some (some 7)⟩)
  clients :=
    update (update (update (update (update (fun _ => none)
      0 (some ⟨5, none, none⟩))
      0 (some ⟨5, some ([1], ⟨5, [3], some [1, 9]⟩), none⟩))
      1 (some ⟨6, none, none⟩))
      1 (some ⟨6, some ([3], ⟨6, [4], some [3, 9]⟩), none⟩))
      0 (some ⟨5, some ([1], ⟨5, [3], some [1, 9]⟩), some true⟩)
  seen := [[4], [3], [0], [2], [3], [1], [2], [1]]
  sent := [[3, 9], [0, 9], [2, 9], [1, 9]]

/-- **Sessions are oracles for one another.** The second server returns `Ok`, and no client has
answered its challenge. -/
theorem sessions_are_oracles : Path (fun s l t => s.Step id [9] l t) Net.start mixed afterMixed ∧
      (∃ server, afterMixed.servers 1 = some server ∧ server.result = some (some 7)) ∧
      (∀ nodeId m, ¬ afterMixed.Answered nodeId [2] m) ∧ (∀ c m, ¬ afterMixed.Answered 7 c m) ∧
      (∃ client m, afterMixed.clients 0 = some client ∧ client.result = some true ∧
        client.answered = some ([1], m) ∧ ¬ afterMixed.Accepted m) ∧
      ¬ afterMixed.Authentic := by
  have hclients : ∀ nodeId c m, afterMixed.Answered nodeId c m → nodeId ≠ 7 ∧ c ≠ [2] := by
    rintro nodeId c m ⟨j, client, hj, rfl, ha⟩
    simp only [afterMixed, update_apply] at hj
    split_ifs at hj <;> cases hj <;> cases ha <;> decide
  have hserver : ∃ server, afterMixed.servers 1 = some server ∧ server.result = some (some 7) :=
    ⟨_, rfl, rfl⟩
  refine ⟨(Path.of_foldlM (rfl : mixed.foldlM (Net.usingStep [9]) Net.start = some afterMixed)).mono
      fun _ _ _ => Net.step_of_usingStep, hserver, fun n m hm => (hclients n _ m hm).2 rfl,
    fun c m hm => (hclients _ c m hm).1 rfl, ⟨_, _, rfl, rfl, rfl, ?_⟩, fun h => ?_⟩
  · rintro ⟨i, server, hi, hr, -⟩
    simp only [afterMixed, update_apply] at hi
    split_ifs at hi <;> cases hi <;> cases hr
  · obtain ⟨server, hi, hres⟩ := hserver
    obtain ⟨m, hm⟩ := h.server 1 server 7 hi hres
    exact (hclients _ _ m hm).1 rfl

/-- What the client sends to the first server is also sent to the second one, which refuses it. -/
def relayed : List (Move Bytes) :=
  [.accept 0 [1], .accept 1 [2], .connect 0 5, .toClient 0 (.challenge [1]) [3],
    .toServer 1 (.challengeResponse ⟨5, [3], some [1, 9]⟩),
    .toServer 0 (.challengeResponse ⟨5, [3], some [1, 9]⟩),
    .toClient 0 (.responseFinal ⟨some [3, 9]⟩) []]

/-- A run without mixed sessions, in which both sides return `Ok`. -/
theorem handshake_authenticates_relayed :
    ∃ s : Net Bytes, ((s.servers 0).bind Server.result, (s.servers 1).bind Server.result,
      (s.clients 0).bind Client.result) = (some (some 5), some none, some true) ∧ s.Authentic := by
  have hnone : ∀ n c m, ¬ (⟨update (update (fun _ => none) 0 (some ⟨[1], none, none⟩))
      1 (some ⟨[2], none, none⟩), update (fun _ => none) 0 (some ⟨5, none, none⟩), [[2], [1]], []⟩ :
        Net Bytes).Answered n c m := by
    rintro n c m ⟨j, client, hj, -, ha⟩
    simp only [update_apply] at hj
    split_ifs at hj
    cases hj
    cases ha
  refine ⟨_, ?_, handshake_authenticates id injective_id [9] relayed _
    (((((((Path.nil.snoc ⟨Net.step_of_usingStep rfl, trivial⟩).snoc
      ⟨Net.step_of_usingStep rfl, trivial⟩).snoc ⟨Net.step_of_usingStep rfl, trivial⟩).snoc
      ⟨Net.step_of_usingStep rfl, fun n c m hm => absurd hm (hnone n c m)⟩).snoc
      ⟨Net.step_of_usingStep rfl, fun k server hk => ?_, fun _ _ _ _ _ =>
        ⟨5, [1], 0, _, rfl, rfl, rfl⟩⟩).snoc
      ⟨Net.step_of_usingStep rfl, fun k server hk => ?_, fun _ _ _ _ _ =>
        ⟨5, [1], 0, _, rfl, rfl, rfl⟩⟩).snoc ⟨Net.step_of_usingStep rfl, trivial⟩)⟩
  · rfl
  · simp only [Net.answer, update_apply] at hk
    split_ifs at hk <;> cases hk <;> decide
  · have hrefused : (⟨5, [3], some [1, 9]⟩ : ChallengeResponse Bytes).verify id [9] [2] = none := rfl
    simp only [Net.serve, hrefused, Net.answer, update_apply] at hk
    split_ifs at hk <;> cases hk <;> decide

end Hiqlite.Network
