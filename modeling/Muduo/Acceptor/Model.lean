/-
# `Muduo.Acceptor.Model` — Acceptor.cpp, Socket::Accept, sockets::accept

An acceptor with the descriptor table of its process.  A step is one system call
of the acceptor, or something that happens meanwhile: a client connects or gives
up, another thread opens or closes a descriptor.

    accept r     the accept4 of HandleNewConnection with what follows it, or the
                 accept in the branch for EMFILE; the kernel says r
    next         the next close or open of HandleNewConnection
    destroy      ~Acceptor

`HandleNewConnection` logs an error of `accept4` before it compares `errno` with
`EMFILE`: that `errno` is still the same after `LOG_SYSERR` is taken for granted.

A connection is known by the number of its arrival.  `idleFd = none` is the −1
that `open` and `accept` leave in `idleFd_`.  `handed`, `refused` and `gone` are
no fields of the source: they record what became of the connections that are no
longer in the backlog.
-/
import Muduo.Basic
import Muduo.Lib.FdTable
import Muduo.Lib.Runs

namespace Muduo

/-- Who has to close a descriptor. -/
inductive FdOwner where
  /-- `listener_` -/
  | listener
  /-- the acceptor, through `idleFd_`, open on `/dev/null` -/
  | reserve
  /-- the acceptor, an accepted connection that it is going to close -/
  | accepted
  /-- the TcpConnection that `onNewConnectionCb_` has made -/
  | connection
  /-- another part of the process -/
  | other
deriving DecidableEq, Repr

/-- The rest of the process closes it. -/
def FdOwner.foreign : FdOwner → Bool
  | other | connection => true
  | listener | reserve | accepted => false

/-- What `accept` returns: the connection or the errno.  `unexpected` are the
errnos for which `sockets::accept` logs a fatal error. -/
inductive AcceptResult where
  | connection
  | EAGAIN
  | EINTR
  | ECONNABORTED
  | EPROTO
  | EPERM
  | EMFILE
  | unexpected
deriving DecidableEq, Repr

/-- Where the loop thread is in `HandleNewConnection`. -/
inductive AcceptorPoint where
  /-- not in it -/
  | waiting
  /-- no callback is set: before `close(connfd)` -/
  | dropping (connfd : ℕ)
  /-- EMFILE: before the first `close(idleFd_)` -/
  | exhausted
  /-- before `idleFd_ = accept(…)` -/
  | vacated
  /-- before the second `close(idleFd_)` -/
  | refusing
  /-- before `idleFd_ = open(…)` -/
  | reopening
  /-- after `~Acceptor` -/
  | destroyed
deriving DecidableEq, Repr

/-- `class Acceptor` that listens, with the table and the backlog. -/
structure Acceptor where
  fds : FdTable FdOwner
  listener : ℕ
  idleFd : Option ℕ
  /-- `onNewConnectionCb_` is set -/
  hasCallback : Bool
  point : AcceptorPoint
  backlog : List ℕ
  arrived : ℕ
  handed : List ℕ
  refused : List ℕ
  gone : List ℕ

inductive AcceptorAct where
  | arrive
  | leave (c : ℕ)
  | openOther
  | closeOther (fd : ℕ)
  | accept (r : AcceptResult)
  | next
  | destroy
deriving DecidableEq, Repr

namespace Acceptor

/-- `idleFd_ = ::open("/dev/null", O_RDONLY | O_CLOEXEC)`. -/
def openIdle (fds : FdTable FdOwner) : Option ℕ × FdTable FdOwner :=
  match fds.alloc .reserve with
  | some (fd, fds) => (some fd, fds)
  | none => (none, fds)

/-- `Acceptor::Acceptor` and `Listen`; without a descriptor for the listener
`createNonblockingOrDie` aborts. -/
def construct (fds : FdTable FdOwner) (hasCallback : Bool) : Option Acceptor :=
  (fds.alloc .listener).map fun p =>
    { fds := (openIdle p.2).2, listener := p.1, idleFd := (openIdle p.2).1, hasCallback,
      point := .waiting, backlog := [], arrived := 0, handed := [], refused := [], gone := [] }

/-- `accept(2)`: the oldest connection of the backlog and the lowest free descriptor,
which `o` is to close. -/
def kernelAccept (s : Acceptor) (o : FdOwner) : AcceptResult → Option (Option (ℕ × ℕ) × Acceptor)
  | .connection =>
      match s.backlog with
      | [] => none
      | c :: cs =>
          (s.fds.alloc o).map fun p => (some (p.1, c), { s with fds := p.2, backlog := cs })
  | .EAGAIN => if s.backlog = [] then some (none, s) else none
  | .EMFILE => if s.fds.Full then some (none, s) else none
  | .EINTR | .ECONNABORTED | .EPROTO | .EPERM | .unexpected => some (none, s)

/-- `HandleNewConnection` up to its first `close`. -/
def handleNewConnection (s : Acceptor) (r : AcceptResult) : Option Acceptor :=
  match s.kernelAccept (if s.hasCallback then .connection else .accepted) r with
  | none => none
  | some (some (connfd, c), s) =>
      if s.hasCallback then some { s with handed := s.handed ++ [c] }
      else some { s with refused := s.refused ++ [c], point := .dropping connfd }
  | some (none, s) =>
      match r with
      | .EMFILE => some { s with point := .exhausted }
      | .unexpected => none -- `LOG_FATAL`
      | .connection | .EAGAIN | .EINTR | .ECONNABORTED | .EPROTO | .EPERM => some s

/-- `idleFd_ = ::accept(listener_->FileDescriptor(), nullptr, nullptr)`. -/
def acceptIdle (s : Acceptor) (r : AcceptResult) : Option Acceptor :=
  match s.kernelAccept .accepted r with
  | none => none
  | some (some (fd, c), s) =>
      some { s with idleFd := some fd, refused := s.refused ++ [c], point := .refusing }
  | some (none, s) => some { s with idleFd := none, point := .refusing }

/-- `sockets::close(idleFd_)`: with −1 it fails. -/
def closeIdle (s : Acceptor) : FdTable FdOwner :=
  match s.idleFd with
  | some fd => s.fds.release fd
  | none => s.fds

/-- The next step of `HandleNewConnection` that is no `accept`. -/
def next (s : Acceptor) : Option Acceptor :=
  match s.point with
  | .dropping connfd => some { s with fds := s.fds.release connfd, point := .waiting }
  | .exhausted => some { s with fds := s.closeIdle, point := .vacated }
  | .refusing => some { s with fds := s.closeIdle, point := .reopening }
  | .reopening =>
      some { s with idleFd := (openIdle s.fds).1, fds := (openIdle s.fds).2, point := .waiting }
  | .waiting | .vacated | .destroyed => none

def step (s : Acceptor) : AcceptorAct → Option Acceptor
  | .arrive =>
      if s.point = .destroyed then none
      else some { s with backlog := s.backlog ++ [s.arrived], arrived := s.arrived + 1 }
  | .leave c =>
      if c ∈ s.backlog then some { s with backlog := s.backlog.erase c, gone := c :: s.gone }
      else none
  | .openOther => (s.fds.alloc .other).map fun p => { s with fds := p.2 }
  | .closeOther fd =>
      if s.fds.owner fd = some .other ∨ s.fds.owner fd = some .connection then
        some { s with fds := s.fds.release fd }
      else none
  | .accept r =>
      match s.point with
      | .waiting => s.handleNewConnection r
      | .vacated => s.acceptIdle r
      | .dropping _ | .exhausted | .refusing | .reopening | .destroyed => none
  | .next => s.next
  | .destroy => -- the members are destroyed: `listener_` closes its socket, `idleFd_` is an int
      if s.point = .waiting then
        some { s with fds := s.fds.release s.listener, point := .destroyed, backlog := [],
                      gone := s.backlog ++ s.gone }
      else none

/-! ## What a step can do -/

variable {s s' : Acceptor} {a : AcceptorAct} {r : AcceptResult}

/-- The steps, with what is known of the state they are taken from. -/
inductive AcceptorStep (s : Acceptor) : AcceptorAct → Acceptor → Prop
  | arrive (hp : s.point ≠ .destroyed) :
      AcceptorStep s .arrive
        { s with backlog := s.backlog ++ [s.arrived], arrived := s.arrived + 1 }
  | leave (c : ℕ) (hc : c ∈ s.backlog) :
      AcceptorStep s (.leave c) { s with backlog := s.backlog.erase c, gone := c :: s.gone }
  | openOther (fd : ℕ) (fds : FdTable FdOwner) (hfd : s.fds.alloc .other = some (fd, fds)) :
      AcceptorStep s .openOther { s with fds }
  | closeOther (fd : ℕ) (o : FdOwner) (ho : o.foreign = true) (hfd : s.fds.owner fd = some o) :
      AcceptorStep s (.closeOther fd) { s with fds := s.fds.release fd }
  | handed (fd c : ℕ) (cs : List ℕ) (fds : FdTable FdOwner) (hp : s.point = .waiting)
      (hb : s.backlog = c :: cs) (hfd : s.fds.alloc .connection = some (fd, fds)) :
      AcceptorStep s (.accept .connection)
        { s with fds, backlog := cs, handed := s.handed ++ [c] }
  | dropped (fd c : ℕ) (cs : List ℕ) (fds : FdTable FdOwner) (hp : s.point = .waiting)
      (hb : s.backlog = c :: cs) (hfd : s.fds.alloc .accepted = some (fd, fds)) :
      AcceptorStep s (.accept .connection)
        { s with fds, backlog := cs, refused := s.refused ++ [c], point := .dropping fd }
  | exhausted (hp : s.point = .waiting) (hf : s.fds.Full) :
      AcceptorStep s (.accept .EMFILE) { s with point := .exhausted }
  | nothing (r : AcceptResult) (hp : s.point = .waiting) (hc : r ≠ .connection)
      (he : r ≠ .EMFILE) : AcceptorStep s (.accept r) s
  | taken (fd c : ℕ) (cs : List ℕ) (fds : FdTable FdOwner) (hp : s.point = .vacated)
      (hb : s.backlog = c :: cs) (hfd : s.fds.alloc .accepted = some (fd, fds)) :
      AcceptorStep s (.accept .connection)
        { s with fds, backlog := cs, idleFd := some fd, refused := s.refused ++ [c],
                 point := .refusing }
  | missed (r : AcceptResult) (hp : s.point = .vacated) (hc : r ≠ .connection)
      (hf : r = .EMFILE → s.fds.Full) :
      AcceptorStep s (.accept r) { s with idleFd := none, point := .refusing }
  | close (fd : ℕ) (hp : s.point = .dropping fd) :
      AcceptorStep s .next { s with fds := s.fds.release fd, point := .waiting }
  | vacate (hp : s.point = .exhausted) :
      AcceptorStep s .next { s with fds := s.closeIdle, point := .vacated }
  | refuse (hp : s.point = .refusing) :
      AcceptorStep s .next { s with fds := s.closeIdle, point := .reopening }
  | reopened (fd : ℕ) (fds : FdTable FdOwner) (hp : s.point = .reopening)
      (hfd : s.fds.alloc .reserve = some (fd, fds)) :
      AcceptorStep s .next { s with idleFd := some fd, fds, point := .waiting }
  | lost (hp : s.point = .reopening) (hf : s.fds.Full) :
      AcceptorStep s .next { s with idleFd := none, point := .waiting }
  | destroy (hp : s.point = .waiting) :
      AcceptorStep s .destroy
        { s with fds := s.fds.release s.listener, point := .destroyed, backlog := [],
                 gone := s.backlog ++ s.gone }

theorem kernelAccept_cases {o : FdOwner} {p : Option (ℕ × ℕ) × Acceptor} :
    s.kernelAccept o r = some p →
      (∃ fd c cs fds, r = .connection ∧ s.backlog = c :: cs ∧ s.fds.alloc o = some (fd, fds) ∧
        p = (some (fd, c), { s with fds, backlog := cs })) ∨
      (r ≠ .connection ∧ (r = .EMFILE → s.fds.Full) ∧ p = (none, s)) := by
  intro h
  cases r with
  | connection =>
      left
      cases hb : s.backlog with
      | nil =>
          simp only [kernelAccept, hb] at h
          exact nomatch h
      | cons c cs =>
          simp only [kernelAccept, hb] at h
          obtain ⟨⟨fd, fds⟩, hfd, rfl⟩ := Option.map_eq_some_iff.mp h
          exact ⟨fd, c, cs, fds, rfl, rfl, hfd, rfl⟩
  | EAGAIN =>
      right
      simp only [kernelAccept, Option.ite_none_right_eq_some] at h
      exact ⟨nofun, nofun, (Option.some.inj h.2).symm⟩
  | EMFILE =>
      right
      simp only [kernelAccept, Option.ite_none_right_eq_some] at h
      exact ⟨nofun, fun _ => h.1, (Option.some.inj h.2).symm⟩
  | EINTR | ECONNABORTED | EPROTO | EPERM | unexpected =>
      exact .inr ⟨nofun, nofun, (Option.some.inj h).symm⟩

theorem handle_cases (hp : s.point = .waiting) :
    s.handleNewConnection r = some s' → AcceptorStep s (.accept r) s' := by
  intro h
  rw [handleNewConnection] at h
  cases hk : s.kernelAccept (if s.hasCallback then .connection else .accepted) r with
  | none =>
      rw [hk] at h
      exact nomatch h
  | some p =>
      rw [hk] at h
      rcases kernelAccept_cases hk with ⟨fd, c, cs, fds, rfl, hb, hfd, rfl⟩ | ⟨hc, hf, rfl⟩
      · by_cases hcb : s.hasCallback = true
        · rw [if_pos hcb] at hfd
          simp only [if_pos hcb] at h
          exact Option.some.inj h ▸ .handed fd c cs fds hp hb hfd
        · rw [if_neg hcb] at hfd
          simp only [if_neg hcb] at h
          exact Option.some.inj h ▸ .dropped fd c cs fds hp hb hfd
      · cases r with
        | connection => exact absurd rfl hc
        | EMFILE => exact Option.some.inj h ▸ .exhausted hp (hf rfl)
        | unexpected => exact nomatch h
        | EAGAIN | EINTR | ECONNABORTED | EPROTO | EPERM =>
            exact Option.some.inj h ▸ .nothing _ hp hc nofun

theorem acceptIdle_cases (hp : s.point = .vacated) :
    s.acceptIdle r = some s' → AcceptorStep s (.accept r) s' := by
  intro h
  rw [acceptIdle] at h
  cases hk : s.kernelAccept .accepted r with
  | none =>
      rw [hk] at h
      exact nomatch h
  | some p =>
      rw [hk] at h
      rcases kernelAccept_cases hk with ⟨fd, c, cs, fds, rfl, hb, hfd, rfl⟩ | ⟨hc, hf, rfl⟩
      · exact Option.some.inj h ▸ .taken fd c cs fds hp hb hfd
      · exact Option.some.inj h ▸ .missed r hp hc hf

theorem next_cases : s.next = some s' → AcceptorStep s .next s' := by
  intro h
  cases hp : s.point with
  | dropping connfd =>
      simp only [next, hp] at h
      exact Option.some.inj h ▸ .close connfd hp
  | exhausted =>
      simp only [next, hp] at h
      exact Option.some.inj h ▸ .vacate hp
  | refusing =>
      simp only [next, hp] at h
      exact Option.some.inj h ▸ .refuse hp
  | reopening =>
      simp only [next, hp] at h
      cases hfd : s.fds.alloc .reserve with
      | none =>
          simp only [openIdle, hfd] at h
          exact Option.some.inj h ▸ .lost hp (FdTable.alloc_eq_none.mp hfd)
      | some p =>
          simp only [openIdle, hfd] at h
          exact Option.some.inj h ▸ .reopened p.1 p.2 hp hfd
  | waiting | vacated | destroyed =>
      simp only [next, hp] at h
      exact nomatch h

theorem step_cases : s.step a = some s' → AcceptorStep s a s' := by
  intro h
  cases a with
  | arrive =>
      simp only [step, Option.ite_none_left_eq_some] at h
      exact Option.some.inj h.2 ▸ .arrive h.1
  | leave c =>
      simp only [step, Option.ite_none_right_eq_some] at h
      exact Option.some.inj h.2 ▸ .leave c h.1
  | openOther =>
      obtain ⟨p, hfd, rfl⟩ := Option.map_eq_some_iff.mp h
      exact .openOther p.1 p.2 hfd
  | closeOther fd =>
      simp only [step, Option.ite_none_right_eq_some] at h
      obtain ⟨ho | ho, h⟩ := h
      · exact Option.some.inj h ▸ .closeOther fd _ rfl ho
      · exact Option.some.inj h ▸ .closeOther fd _ rfl ho
  | accept r =>
      cases hp : s.point with
      | waiting =>
          simp only [step, hp] at h
          exact handle_cases hp h
      | vacated =>
          simp only [step, hp] at h
          exact acceptIdle_cases hp h
      | dropping | exhausted | refusing | reopening | destroyed =>
          simp only [step, hp] at h
          exact nomatch h
  | next => exact next_cases h
  | destroy =>
      simp only [step, Option.ite_none_right_eq_some] at h
      exact Option.some.inj h.2 ▸ .destroy h.1

end Acceptor

end Muduo
