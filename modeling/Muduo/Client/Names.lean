/-
# `Muduo.Client.Names` — are the names of a client's connections distinct?

`HandleConnectSuccessfully` prints the address of the peer and the number of the
connection into a buffer of 32 characters, and puts it behind the name of the
client.  The number comes last, and what has no room is cut.

    ':', '#' and '\0'                 3
    peer and number, together        29
      a peer of IPv4                 21 at most, which leaves 8 for the number
      a peer of IPv6                 52 at most

`NamedClient` is the client of `Client.Model` with its names; without them it
takes the same steps (`step_client`).
-/
import Mathlib.Data.List.Nodup
import Muduo.Client.Model
import Muduo.InetAddr.IpPort

namespace Muduo

open Runs

/-- `%d`. -/
def formatInt (n : ℤ) : List Char :=
  if n < 0 then '-' :: Nat.toDigits 10 n.natAbs else Nat.toDigits 10 n.natAbs

namespace TcpClient

/-- `":%s#%d"`; `nextConnId_` is unsigned. -/
def connText (ipPort : List Char) (id : BitVec 32) : List Char :=
  ':' :: ipPort ++ '#' :: formatInt id.toInt

/-- `conn_name`, with what lies in the buffer before. -/
def connName (clientName ipPort : List Char) (id : BitVec 32) (buf : Vector Char 32) :
    Option (List Char) := do
  let buf := Text.snprintf nul buf.toList 0 32 (connText ipPort id)
  let s ← Text.content nul buf
  return clientName ++ s

end TcpClient

/-- What `HandleConnectSuccessfully` finds: the address of the peer, and what lies in the
buffers of `GetIpPort` and of its own. -/
structure Peer where
  addr : InetAddr
  ipPortBuf : Vector Char 64
  buf : Vector Char 32

/-- A connection, by what it was named after. -/
structure NamedConn where
  remoteAddr : InetAddr
  connId : BitVec 32
  name : List Char
deriving DecidableEq

/-- `class TcpClient` with the names; `conns` are the connections that there have been. -/
structure NamedClient where
  client : TcpClient
  clientName : List Char
  nextConnId : BitVec 32
  conns : List NamedConn

namespace NamedClient

variable (ntop : InetNtop) (e : Endian)

def init (writeCompleteCb : Bool) (clientName : List Char) : NamedClient :=
  { client := .init writeCompleteCb, clientName, nextConnId := 1, conns := [] }

def handleConnectSuccessfully (s : NamedClient) (peer : Peer) (sockfd : ℤ) :
    Option NamedClient := do
  let ipPort ← peer.addr.getIpPort ntop e peer.ipPortBuf
  let name ← TcpClient.connName s.clientName ipPort s.nextConnId peer.buf
  let client ← s.client.handleConnectSuccessfully sockfd
  some { s with client, nextConnId := s.nextConnId + 1,
                conns := s.conns ++ [⟨peer.addr, s.nextConnId, name⟩] }

/-- A step of the connector, as in `TcpClient.connectorStep`. -/
def connectorStep (s : NamedClient) (a : ConnectorAct) (peer : Peer) : Option NamedClient := do
  let connector ← s.client.connector.step a
  let client := { s.client with connector }
  match connector.delivered.drop s.client.connector.delivered.length with
  | [] => some { s with client }
  | sockfd :: _ =>
      if s.client.alive then handleConnectSuccessfully ntop e { s with client } peer sockfd
      else some { s with client }

/-- A step of the client.  Only a step of the connector can name a connection. -/
def step (s : NamedClient) (p : ClientAct × Peer) : Option NamedClient :=
  match p.1 with
  | .connector a => do
      guard (a.ofLoop = true ∧ (a.turns = true → s.client.idle = true))
      s.connectorStep ntop e a p.2
  | a => (s.client.step a).map fun client => { s with client }

/-- The step calls `HandleConnectSuccessfully`. -/
def connects (s : NamedClient) : ClientAct → Bool
  | .connector a => s.client.alive && (s.client.connector.step a).any fun connector =>
      connector.delivered.drop s.client.connector.delivered.length ≠ []
  | _ => false

/-- A connection that comes with this step has a peer and a number that fit into the buffer. -/
def Fits (s : NamedClient) (p : ClientAct × Peer) : Prop :=
  s.connects p.1 = true → ∀ ipPort ∈ p.2.addr.getIpPort ntop e p.2.ipPortBuf,
    ipPort.length + (Nat.toDigits 10 s.nextConnId.toNat).length ≤ 29

instance (s : NamedClient) (p : ClientAct × Peer) : Decidable (s.Fits ntop e p) :=
  inferInstanceAs (Decidable (_ → _))

/-- The name ends in the address of the peer and the whole number. -/
def Full (clientName : List Char) (c : NamedConn) : Prop :=
  ∀ buf, ∃ ipPort, c.remoteAddr.getIpPort ntop e buf = some ipPort ∧
    c.name = clientName ++ (':' :: ipPort ++ '#' :: Nat.toDigits 10 c.connId.toNat)

/-- What the names are for. -/
structure WellNamed (s : NamedClient) : Prop where
  distinct : (s.conns.map NamedConn.name).Nodup
  full : ∀ c ∈ s.conns, Full ntop e s.clientName c

variable {ntop : InetNtop} {e : Endian} {s s' : NamedClient} {p : ClientAct × Peer}

/-! ## What a step can do -/

theorem nul_not_mem_formatInt (n : ℤ) : nul ∉ formatInt n := by
  have hdigits := Text.not_mem_toDigits (c := nul) (by decide) n.natAbs
  unfold formatInt
  split
  · rw [List.mem_cons]
    exact not_or.mpr ⟨by decide, hdigits⟩
  · exact hdigits

theorem nul_not_mem_connText {ipPort : List Char} (hip : nul ∉ ipPort) (id : BitVec 32) :
    nul ∉ TcpClient.connText ipPort id := by
  simp only [TcpClient.connText, List.cons_append, List.mem_cons, List.mem_append, not_or]
  exact ⟨by decide, hip, by decide, nul_not_mem_formatInt _⟩

/-- The text is cut after 31 characters, whatever was in the buffer. -/
theorem connName_eq {ipPort : List Char} (hip : nul ∉ ipPort) (clientName : List Char)
    (id : BitVec 32) (buf : Vector Char 32) :
    TcpClient.connName clientName ipPort id buf =
      some (clientName ++ (TcpClient.connText ipPort id).take 31) := by
  have hreads := Text.reads_snprintf (s := []) (n := 32) (List.nil_prefix (l := buf.toList))
    List.not_mem_nil (nul_not_mem_connText hip id) (by decide)
  have hcontent := hreads.content
  rw [List.length_nil, List.nil_append] at hcontent
  simp only [TcpClient.connName, hcontent, Option.bind_eq_bind, Option.bind_some]
  rfl

/-- The connection with a peer, as it is named. -/
def named (ntop : InetNtop) (e : Endian) (s : NamedClient) (a : InetAddr) : NamedConn :=
  { remoteAddr := a, connId := s.nextConnId,
    name := s.clientName ++ (TcpClient.connText (a.addr.printed ntop e) s.nextConnId).take 31 }

/-- The state when the client has gone on to `client`. -/
def advance (ntop : InetNtop) (e : Endian) (s : NamedClient) (p : ClientAct × Peer)
    (client : TcpClient) : NamedClient :=
  if s.connects p.1 = true then
    { s with client, nextConnId := s.nextConnId + 1,
             conns := s.conns ++ [s.named ntop e p.2.addr] }
  else { s with client }

theorem handleConnectSuccessfully_eq (h : ntop.Lawful) (s : NamedClient) (peer : Peer)
    (sockfd : ℤ) :
    s.handleConnectSuccessfully ntop e peer sockfd =
      (s.client.handleConnectSuccessfully sockfd).map fun client =>
        { s with client, nextConnId := s.nextConnId + 1,
                 conns := s.conns ++ [s.named ntop e peer.addr] } := by
  simp only [handleConnectSuccessfully, InetAddr.getIpPort_eq h, Option.bind_eq_bind,
    Option.bind_some, connName_eq (SockAddr.nul_not_mem_printed h)]
  cases s.client.handleConnectSuccessfully sockfd with
  | none => rfl
  | some client => rfl

theorem connectorStep_eq (h : ntop.Lawful) (s : NamedClient) (a : ConnectorAct) (peer : Peer) :
    s.connectorStep ntop e a peer =
      (s.client.connectorStep a).map (s.advance ntop e (.connector a, peer)) := by
  unfold connectorStep TcpClient.connectorStep
  cases hc : s.client.connector.step a with
  | none => rfl
  | some connector =>
      have hcon : s.connects (.connector a) = (s.client.alive &&
          decide (connector.delivered.drop s.client.connector.delivered.length ≠ [])) := by
        rw [connects, hc, Option.any_some]
      simp only [Option.bind_eq_bind, Option.bind_some]
      cases hd : connector.delivered.drop s.client.connector.delivered.length with
      | nil =>
          have hnot : s.connects (.connector a) = false := by rw [hcon, hd]; exact Bool.and_false _
          simp only [Option.map_some, advance, hnot, Bool.false_eq_true, if_false]
      | cons sockfd rest =>
          rw [hd] at hcon
          cases ha : s.client.alive with
          | false =>
              have hnot : s.connects (.connector a) = false := by rw [hcon, ha]; rfl
              simp only [Option.map_some, advance, hnot, Bool.false_eq_true, if_false]
          | true =>
              have hyes : s.connects (.connector a) = true := by rw [hcon, ha]; rfl
              simp only [handleConnectSuccessfully_eq h, if_true]
              unfold advance
              rw [hyes]
              rfl

/-- The names stop no step of the client. -/
theorem step_eq (h : ntop.Lawful) (s : NamedClient) (p : ClientAct × Peer) :
    s.step ntop e p = (s.client.step p.1).map (s.advance ntop e p) := by
  rcases p with ⟨a, peer⟩
  cases a with
  | connector a =>
      simp only [step, TcpClient.step, connectorStep_eq h]
      by_cases hg : a.ofLoop = true ∧ (a.turns = true → s.client.idle = true)
      · simp only [guard, if_pos hg]
        rfl
      · simp only [guard, if_neg hg]
        rfl
  | _ => rfl

/-- Without its names a step is one of the client. -/
theorem step_client (h : ntop.Lawful) (s : NamedClient) (p : ClientAct × Peer) :
    (s.step ntop e p).map client = s.client.step p.1 := by
  have hsame : client ∘ s.advance ntop e p = id := by
    funext c
    simp only [Function.comp_apply, advance]
    split <;> rfl
  rw [step_eq h, Option.map_map, hsame, Option.map_id, id_eq]

/-- So is a run, for whatever peers. -/
theorem runAll_client (h : ntop.Lawful) (s : NamedClient) (acts : List (ClientAct × Peer)) :
    (runAll (step ntop e) s acts).map
        (fun r => (r.1.map fun q => (q.1.client, q.2.1), r.2.client)) =
      runAll TcpClient.step s.client (acts.map Prod.fst) :=
  runAll_map (step_client h) s acts

theorem step_cases (h : ntop.Lawful) (hst : s.step ntop e p = some s') :
    s'.clientName = s.clientName ∧
      (s.connects p.1 = false ∧ s'.nextConnId = s.nextConnId ∧ s'.conns = s.conns ∨
        s.connects p.1 = true ∧ s'.nextConnId = s.nextConnId + 1 ∧
          s'.conns = s.conns ++ [s.named ntop e p.2.addr]) := by
  rw [step_eq h, Option.map_eq_some_iff] at hst
  obtain ⟨c, -, rfl⟩ := hst
  unfold advance
  cases hc : s.connects p.1 with
  | false => exact ⟨rfl, .inl ⟨rfl, rfl, rfl⟩⟩
  | true => exact ⟨rfl, .inr ⟨rfl, rfl, rfl⟩⟩

/-! ## The numbers -/

/-- The connections have the numbers from 1 on, and are named as far as the buffer goes. -/
structure Numbered (ntop : InetNtop) (e : Endian) (s : NamedClient) : Prop where
  next : s.nextConnId = BitVec.ofNat 32 (s.conns.length + 1)
  ids : s.conns.map NamedConn.connId =
    (List.range s.conns.length).map fun i => BitVec.ofNat 32 (i + 1)
  names : ∀ c ∈ s.conns, c.name = s.clientName ++
    (TcpClient.connText (c.remoteAddr.addr.printed ntop e) c.connId).take 31

theorem numbered_init (writeCompleteCb : Bool) (clientName : List Char) :
    (init writeCompleteCb clientName).Numbered ntop e :=
  ⟨rfl, rfl, fun _ hc => absurd hc List.not_mem_nil⟩

theorem Numbered.step (h : ntop.Lawful) (w : s.Numbered ntop e)
    (hst : s.step ntop e p = some s') : s'.Numbered ntop e := by
  obtain ⟨hname, ⟨-, hnext, hconns⟩ | ⟨-, hnext, hconns⟩⟩ := step_cases h hst
  · refine ⟨?_, ?_, ?_⟩
    · rw [hnext, hconns, w.next]
    · rw [hconns, w.ids]
    · rw [hconns, hname]
      exact w.names
  · refine ⟨?_, ?_, ?_⟩
    · rw [hnext, hconns, w.next, List.length_append, List.length_singleton]
      exact (BitVec.ofNat_add _ _).symm
    · rw [hconns, List.map_append, w.ids, List.length_append, List.length_singleton,
        List.range_succ, List.map_append, List.map_singleton, List.map_singleton, named, w.next]
    · rw [hconns, hname]
      intro c hc
      rcases List.mem_append.mp hc with hc | hc
      · exact w.names c hc
      · rw [List.mem_singleton.mp hc]
        rfl

theorem numbered_of_run (h : ntop.Lawful) {writeCompleteCb : Bool} {clientName : List Char}
    {tr : List (NamedClient × ClientAct × Peer)}
    (hr : Run (stepOf (step ntop e)) (init writeCompleteCb clientName) tr s) : s.Numbered ntop e :=
  hr.invariant (numbered_init writeCompleteCb clientName) fun w hst => w.step h hst

/-- The peer and the number of every connection fit into the buffer. -/
def Uncut (ntop : InetNtop) (e : Endian) (s : NamedClient) : Prop :=
  ∀ c ∈ s.conns, (c.remoteAddr.addr.printed ntop e).length +
    (Nat.toDigits 10 c.connId.toNat).length ≤ 29

theorem uncut_step (h : ntop.Lawful) (hst : s.step ntop e p = some s') :
    s'.Uncut ntop e ↔ s.Uncut ntop e ∧ s.Fits ntop e p := by
  unfold Uncut Fits
  simp only [InetAddr.getIpPort_eq h, Option.mem_some_iff, forall_eq']
  obtain ⟨-, ⟨hc, -, hconns⟩ | ⟨hc, -, hconns⟩⟩ := step_cases h hst
  · rw [hconns, hc]
    exact (and_iff_left fun hf => absurd hf Bool.false_ne_true).symm
  · rw [hconns, hc, List.forall_mem_append, List.forall_mem_singleton]
    exact and_congr_right fun _ => ⟨fun hle _ => hle, fun hf => hf rfl⟩

/-! ## Names that are not cut -/

theorem formatInt_toInt {id : BitVec 32} (hid : id.toNat < 2 ^ 31) :
    formatInt id.toInt = Nat.toDigits 10 id.toNat := by
  rw [BitVec.toInt_eq_toNat_of_lt (by omega), formatInt, if_neg (by omega), Int.natAbs_natCast]

theorem full_iff (h : ntop.Lawful) {clientName : List Char} {c : NamedConn} :
    Full ntop e clientName c ↔ c.name = clientName ++
      (':' :: c.remoteAddr.addr.printed ntop e ++ '#' :: Nat.toDigits 10 c.connId.toNat) := by
  simp only [Full, InetAddr.getIpPort_eq h, Option.some.injEq, exists_eq_left']
  exact ⟨fun hf => hf (.replicate 64 nul), fun hf _ => hf⟩

theorem Numbered.toNat_le (w : s.Numbered ntop e) {c : NamedConn} (hc : c ∈ s.conns) :
    c.connId.toNat ≤ s.conns.length := by
  have hid := List.mem_map_of_mem (f := NamedConn.connId) hc
  rw [w.ids] at hid
  obtain ⟨i, hi, he⟩ := List.mem_map.mp hid
  rw [← he, BitVec.toNat_ofNat]
  exact (Nat.mod_le _ _).trans (List.mem_range.mp hi)

theorem Numbered.nodup_ids (w : s.Numbered ntop e) (hlt : s.conns.length < 2 ^ 31) :
    (s.conns.map NamedConn.connId).Nodup := by
  rw [w.ids]
  refine List.Nodup.map_on (fun i hi j hj hij => ?_) List.nodup_range
  have hi := List.mem_range.mp hi
  have hj := List.mem_range.mp hj
  have hnat := congrArg BitVec.toNat hij
  rw [BitVec.toNat_ofNat, BitVec.toNat_ofNat] at hnat
  omega

theorem Numbered.full_iff (h : ntop.Lawful) (w : s.Numbered ntop e)
    (hlt : s.conns.length < 2 ^ 31) {c : NamedConn} (hc : c ∈ s.conns) :
    Full ntop e s.clientName c ↔ (c.remoteAddr.addr.printed ntop e).length +
      (Nat.toDigits 10 c.connId.toNat).length ≤ 29 := by
  rw [NamedClient.full_iff h, w.names c hc, List.append_cancel_left_eq, TcpClient.connText,
    formatInt_toInt ((w.toNat_le hc).trans_lt hlt), List.take_eq_self_iff]
  simp only [List.length_append, List.length_cons]
  omega

/-- Connections with the whole number in their names have different names. -/
theorem Numbered.distinct (h : ntop.Lawful) (w : s.Numbered ntop e)
    (hlt : s.conns.length < 2 ^ 31) (hf : ∀ c ∈ s.conns, Full ntop e s.clientName c) :
    (s.conns.map NamedConn.name).Nodup := by
  have hids := w.nodup_ids hlt
  rw [List.Nodup, List.pairwise_map] at hids ⊢
  refine hids.imp_of_mem fun {c d} hc hd hne he => hne (BitVec.eq_of_toNat_eq ?_)
  rw [(NamedClient.full_iff h).mp (hf c hc), (NamedClient.full_iff h).mp (hf d hd)] at he
  exact Text.numbered_inj (c := '#') (by decide) (List.append_cancel_left he)

theorem Numbered.uncut_iff (h : ntop.Lawful) (w : s.Numbered ntop e)
    (hlt : s.conns.length < 2 ^ 31) : s.WellNamed ntop e ↔ s.Uncut ntop e := by
  constructor
  · exact fun hw c hc => (w.full_iff h hlt hc).mp (hw.full c hc)
  · intro hu
    have hfull : ∀ c ∈ s.conns, Full ntop e s.clientName c :=
      fun c hc => (w.full_iff h hlt hc).mpr (hu c hc)
    exact ⟨w.distinct h hlt hfull, hfull⟩

/-- A run of fewer than 2 ^ 31 connections leads to names that are distinct and whole
exactly if every peer fits into the buffer with its number. -/
theorem wellNamed_iff (h : ntop.Lawful) (e : Endian) {writeCompleteCb : Bool}
    {clientName : List Char} {tr : List (NamedClient × ClientAct × Peer)}
    (hr : Run (stepOf (step ntop e)) (init writeCompleteCb clientName) tr s)
    (hlt : s.conns.length < 2 ^ 31) :
    (∀ p ∈ tr, Fits ntop e p.1 p.2) ↔ s.WellNamed ntop e := by
  rw [(numbered_of_run h hr).uncut_iff h hlt]
  refine (hr.iff_forall_of_step (I := fun _ => True) trivial ?_ (fun _ _ => trivial) ?_).symm
  · exact fun c hc => absurd hc List.not_mem_nil
  · exact fun _ hst => uncut_step h hst

/-- A client of IPv4 servers has good names for its first 10 ^ 8 - 1 connections. -/
theorem wellNamed_of_inet4 (h : ntop.Lawful) {writeCompleteCb : Bool} {clientName : List Char}
    {tr : List (NamedClient × ClientAct × Peer)}
    (hr : Run (stepOf (step ntop e)) (init writeCompleteCb clientName) tr s)
    (hinet : ∀ p ∈ tr, p.1.connects p.2.1 = true → p.2.2.addr.getAddressFamily = .AF_INET)
    (hlt : s.conns.length < 10 ^ 8) : s.WellNamed ntop e := by
  have hw := numbered_of_run h hr
  refine (hw.uncut_iff h (hlt.trans (by decide))).mpr fun c hc => ?_
  have hfamily : ∀ c ∈ s.conns, c.remoteAddr.getAddressFamily = .AF_INET := by
    refine hr.invariant_of (I := fun s => ∀ c ∈ s.conns, c.remoteAddr.getAddressFamily = .AF_INET)
      (G := fun s p => s.connects p.1 = true → p.2.addr.getAddressFamily = .AF_INET) hinet
      (fun c hc => absurd hc List.not_mem_nil) fun hi hp hst => ?_
    obtain ⟨-, ⟨-, -, hconns⟩ | ⟨hc, -, hconns⟩⟩ := step_cases h hst
    · rwa [hconns]
    · rw [hconns, List.forall_mem_append, List.forall_mem_singleton]
      exact ⟨hi, hp hc⟩
  have hpeer := InetAddr.length_printed (e := e) h (hfamily c hc)
  have hdigits : (Nat.toDigits 10 c.connId.toNat).length ≤ 8 := by
    rw [Nat.length_toDigits_le_iff (by decide) (by decide)]
    exact (hw.toNat_le hc).trans_lt hlt
  omega

/-- A connection is lost and made again. -/
def reconnected : List ClientAct :=
  [.enableRetry, .connect true, .connector (.loop .EINPROGRESS 0), .connector (.event POLLOUT),
    .connector (.loop .ok 0), .connector (.loop .ok 0), .connector (.loop .ok 0), .connector .task,
    .conn .handleClose, .reconnect, .connector (.loop .EINPROGRESS 0),
    .connector (.event POLLOUT), .connector (.loop .ok 0)]

/-- All connections are to one server. -/
def reconnectedTo (addr : InetAddr) :
    Option (List (NamedClient × ClientAct × Peer) × NamedClient) :=
  let peer : Peer := { addr, ipPortBuf := .replicate 64 nul, buf := .replicate 32 nul }
  runAll (step .plain (.host true)) (init false "client".toList) (reconnected.map (·, peer))

theorem reconnected_wellNamed :
    ∃ tr s, reconnectedTo .localHost = some (tr, s) ∧
      s.conns.map NamedConn.name =
        ["client:127.0.0.1:8080#1".toList, "client:127.0.0.1:8080#2".toList] ∧
      s.WellNamed .plain (.host true) := by
  obtain ⟨tr, s, hrun, hlen, hnames, hok⟩ : ∃ tr s,
      reconnectedTo .localHost = some (tr, s) ∧ s.conns.length < 2 ^ 31 ∧
        s.conns.map NamedConn.name =
          ["client:127.0.0.1:8080#1".toList, "client:127.0.0.1:8080#2".toList] ∧
        ∀ p ∈ tr, Fits .plain (.host true) p.1 p.2 :=
    exists_computed (by decide +kernel)
  exact ⟨tr, s, hrun, hnames,
    (wellNamed_iff InetNtop.plain_lawful _ (run_of_runAll hrun) hlen).mp hok⟩

/-- `2001:db8:1111:2222:3333:4444:5555:6666`, port 80. -/
def longAddress : InetAddr :=
  ⟨.inet6 ⟨(Endian.host true).nativeToBig 2 80,
    #v[0x20, 0x01, 0x0d, 0xb8, 0x11, 0x11, 0x22, 0x22,
       0x33, 0x33, 0x44, 0x44, 0x55, 0x55, 0x66, 0x66]⟩⟩

theorem reconnected_same_name :
    ∃ tr s, reconnectedTo longAddress = some (tr, s) ∧ s.conns.length < 2 ^ 31 ∧
      s.conns.map NamedConn.connId = [1, 2] ∧
      s.conns.map NamedConn.name =
        .replicate 2 "client:2001:db8:1111:2222:3333:4444:5".toList ∧
      ¬ s.WellNamed .plain (.host true) := by
  obtain ⟨tr, s, hrun, hlen, hids, hnames⟩ : ∃ tr s,
      reconnectedTo longAddress = some (tr, s) ∧ s.conns.length < 2 ^ 31 ∧
        s.conns.map NamedConn.connId = [1, 2] ∧ s.conns.map NamedConn.name =
          .replicate 2 "client:2001:db8:1111:2222:3333:4444:5".toList :=
    exists_computed (by decide +kernel)
  refine ⟨tr, s, hrun, hlen, hids, hnames, fun h => ?_⟩
  have hdistinct := h.distinct
  rw [hnames] at hdistinct
  exact absurd hdistinct (by decide)

end NamedClient

end Muduo
