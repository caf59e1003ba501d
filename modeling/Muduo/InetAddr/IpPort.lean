/-
# `Muduo.InetAddr.IpPort` — is the port set apart from the address?

`toIpPort` goes on behind what `toIp` has written.  For IPv6 it has put a bracket
at the start of the buffer, which is where `toIp` begins to write.

    family     GetIp     GetIpPort     should be
    IPv4       ip        ip:port       ip:port
    IPv6       ip        ip]:port      [ip]:port

The text is never cut: with its port it has 52 characters at most.
-/
import Muduo.InetAddr.Model

namespace Muduo

/-! ## What is written -/

namespace SockAddr

/-- The address in text. -/
def ip (ntop : InetNtop) : SockAddr → List Char
  | .inet4 a => ntop.inet a.sinAddr
  | .inet6 a => ntop.inet6 a.sin6Addr

/-- The port in host order. -/
def hostPort (e : Endian) : SockAddr → BitVec 16
  | .inet4 a => e.bigToNative 2 a.sinPort
  | .inet6 a => e.bigToNative 2 a.sin6Port

/-- What comes between the address and the port. -/
def separator : SockAddr → List Char
  | .inet4 _ => [':']
  | .inet6 _ => [']', ':']

/-- The text with the port. -/
def printed (ntop : InetNtop) (e : Endian) (a : SockAddr) : List Char :=
  a.ip ntop ++ (a.separator ++ Nat.toDigits 10 (a.hostPort e).toNat)

variable {ntop : InetNtop} {e : Endian} {a : SockAddr} {buf : List Char} {size : ℕ}

theorem length_ip (h : ntop.Lawful) : (a.ip ntop).length ≤ 45 := by
  cases a with
  | inet4 a => exact (h.length_inet a.sinAddr).trans (by decide)
  | inet6 a => exact h.length_inet6 a.sin6Addr

theorem nul_not_mem_ip (h : ntop.Lawful) : nul ∉ a.ip ntop := by
  cases a with
  | inet4 a => exact h.nul_inet a.sinAddr
  | inet6 a => exact h.nul_inet6 a.sin6Addr

theorem length_port (port : BitVec 16) : (Nat.toDigits 10 port.toNat).length ≤ 5 := by
  rw [Nat.length_toDigits_le_iff (by decide) (by decide)]
  exact port.isLt.trans (by decide)

theorem length_suffix : (a.separator ++ Nat.toDigits 10 (a.hostPort e).toNat).length ≤ 7 := by
  have hport := length_port (a.hostPort e)
  rw [List.length_append]
  cases a with
  | inet4 a => exact Nat.add_le_add (by decide : 1 ≤ 2) hport
  | inet6 a => exact Nat.add_le_add (le_refl 2) hport

theorem nul_not_mem_suffix :
    nul ∉ a.separator ++ Nat.toDigits 10 (a.hostPort e).toNat := by
  intro hmem
  rcases List.mem_append.mp hmem with hsep | hdigit
  · cases a with
    | inet4 a => exact absurd hsep (show nul ∉ [':'] by decide)
    | inet6 a => exact absurd hsep (show nul ∉ [']', ':'] by decide)
  · exact Text.not_mem_toDigits (by decide) _ hdigit

theorem nul_not_mem_printed (h : ntop.Lawful) : nul ∉ a.printed ntop e :=
  fun hmem => (List.mem_append.mp hmem).elim (nul_not_mem_ip h) nul_not_mem_suffix

/-- `toIp` writes the address at the start of the buffer, whatever was there. -/
theorem toIp_spec (h : ntop.Lawful) (buf : List Char) (hsize : INET6_ADDRSTRLEN ≤ size) :
    ∃ buf', a.toIp ntop buf size = some buf' ∧ Text.Reads nul buf' (a.ip ntop) := by
  have hlen := length_ip (a := a) h
  have hwrite : Text.Reads nul (inetNtop (a.ip ntop) buf size) (a.ip ntop) := by
    rw [inetNtop, if_pos (lt_of_lt_of_le (Nat.lt_succ_of_le hlen) hsize)]
    exact Text.reads_put (s := []) List.nil_prefix List.not_mem_nil (nul_not_mem_ip h)
  refine ⟨_, ?_, hwrite⟩
  cases a with
  | inet4 a =>
      have hroom : size ≥ INET_ADDRSTRLEN := le_trans (by decide) hsize
      rw [toIp, assert_of hroom]
      rfl
  | inet6 a =>
      rw [toIp, assert_of hsize]
      rfl

/-- The port is put behind the address, and nothing is cut. -/
theorem reads_port (h : ntop.Lawful) (hb : Text.Reads nul buf (a.ip ntop)) :
    Text.Reads nul (Text.snprintf nul buf (a.ip ntop).length (64 - (a.ip ntop).length)
      (a.separator ++ Nat.toDigits 10 (a.hostPort e).toNat)) (a.printed ntop e) := by
  have hlen := length_ip (a := a) h
  have hsuffix := length_suffix (a := a) (e := e)
  have hreads := Text.reads_snprintf (n := 64 - (a.ip ntop).length) hb.isPrefix hb.1
    (nul_not_mem_suffix (a := a) (e := e)) (by omega)
  rwa [Text.take_room (by omega)] at hreads

theorem toIpPort_spec (h : ntop.Lawful) (buf : List Char) :
    ∃ buf', a.toIpPort ntop e buf 64 = some buf' ∧ Text.Reads nul buf' (a.printed ntop e) := by
  have hlen := length_ip (a := a) h
  have hroom : 64 > (a.ip ntop).length := lt_of_le_of_lt hlen (by decide)
  cases a with
  | inet4 a =>
      obtain ⟨buf', hip, hb⟩ := toIp_spec (a := .inet4 a) h buf
        (by decide : INET6_ADDRSTRLEN ≤ 64)
      refine ⟨_, ?_, reads_port h hb⟩
      simp only [toIpPort, hip, hb.strlen, assert_of hroom, Option.bind_eq_bind, Option.bind_some]
      rfl
  | inet6 a =>
      obtain ⟨buf', hip, hb⟩ := toIp_spec (a := .inet6 a) h (buf.set 0 '[')
        (by decide : INET6_ADDRSTRLEN ≤ 64)
      refine ⟨_, ?_, reads_port h hb⟩
      simp only [toIpPort, hip, hb.strlen, assert_of hroom, Option.bind_eq_bind, Option.bind_some]
      rfl

end SockAddr

/-- The text of an IPv4 address is one of 21 characters at most. -/
theorem InetAddr.length_printed {ntop : InetNtop} {e : Endian} {a : InetAddr} (h : ntop.Lawful)
    (ha : a.getAddressFamily = .AF_INET) : (a.addr.printed ntop e).length ≤ 21 := by
  rcases a with ⟨a | a⟩
  · have hip := h.length_inet a.sinAddr
    have hport := SockAddr.length_port (SockAddr.hostPort e (.inet4 a))
    simp only [SockAddr.printed, SockAddr.ip, SockAddr.separator, List.length_append,
      List.length_singleton]
    omega
  · exact absurd ha (show AddressFamily.AF_INET6 ≠ .AF_INET by decide)

/-! ## Addresses written out -/

/-- Two bytes are a group of hexadecimal digits. -/
def hexGroups : List Byte → List (List Char)
  | hi :: lo :: bytes => Nat.toDigits 16 (256 * hi.toNat + lo.toNat) :: hexGroups bytes
  | _ => []

/-- What `inet_ntop` writes for IPv4, and for the addresses of IPv6 in which no two zero
groups meet. -/
def InetNtop.plain : InetNtop where
  inet a := ['.'].intercalate (a.toList.map fun byte => Nat.toDigits 10 byte.toNat)
  inet6 a := [':'].intercalate (hexGroups a.toList)

theorem length_hexGroups (bytes : List Byte) : 2 * (hexGroups bytes).length ≤ bytes.length := by
  induction bytes using hexGroups.induct with
  | case1 hi lo bytes ih =>
      rw [hexGroups, List.length_cons, List.length_cons, List.length_cons]
      omega
  | case2 bytes h =>
      rw [hexGroups]
      · exact Nat.zero_le _
      · exact h

theorem mem_hexGroups {g : List Char} {bytes : List Byte} (h : g ∈ hexGroups bytes) :
    ∃ n, n < 16 ^ 4 ∧ g = Nat.toDigits 16 n := by
  induction bytes using hexGroups.induct with
  | case1 hi lo bytes ih =>
      rcases List.mem_cons.mp h with rfl | h
      · exact ⟨_, by omega, rfl⟩
      · exact ih h
  | case2 bytes hb =>
      rw [hexGroups] at h
      · exact absurd h List.not_mem_nil
      · exact hb

theorem nul_not_mem_toDigits {b n : ℕ} (hb : 1 < b ∧ b ≤ 16) : nul ∉ Nat.toDigits b n := by
  intro hmem
  obtain ⟨d, hlt, hd⟩ := Text.mem_toDigits hb.1 hmem
  have hne : ∀ d < 16, nul ≠ Nat.digitChar d := by decide
  exact hne d (hlt.trans_le hb.2) hd

theorem InetNtop.plain_lawful : plain.Lawful where
  length_inet a := by
    have hbyte : ∀ g ∈ a.toList.map fun byte => Nat.toDigits 10 byte.toNat, g.length ≤ 3 := by
      intro g hg
      obtain ⟨byte, -, rfl⟩ := List.mem_map.mp hg
      rw [Nat.length_toDigits_le_iff (by decide) (by decide)]
      exact byte.isLt.trans (by decide)
    have hle := Text.length_intercalate_le (c := '.') hbyte
    rwa [List.length_map, Vector.length_toList] at hle
  length_inet6 a := by
    have hgroup : ∀ g ∈ hexGroups a.toList, g.length ≤ 4 := by
      intro g hg
      obtain ⟨n, hn, rfl⟩ := mem_hexGroups hg
      exact (Nat.length_toDigits_le_iff (by decide) (by decide)).mpr hn
    have hle := Text.length_intercalate_le (c := ':') hgroup
    have hcount := length_hexGroups a.toList
    rw [Vector.length_toList] at hcount
    exact hle.trans (by omega)
  nul_inet a := by
    intro hmem
    rcases Text.mem_intercalate hmem with h | ⟨g, hg, h⟩
    · exact absurd h (by decide)
    · obtain ⟨byte, -, rfl⟩ := List.mem_map.mp hg
      exact nul_not_mem_toDigits (by decide) h
  nul_inet6 a := by
    intro hmem
    rcases Text.mem_intercalate hmem with h | ⟨g, hg, h⟩
    · exact absurd h (by decide)
    · obtain ⟨n, -, rfl⟩ := mem_hexGroups hg
      exact nul_not_mem_toDigits (by decide) h

/-! ## GetIp and GetIpPort -/

namespace InetAddr

variable {ntop : InetNtop} {e : Endian} {a : InetAddr}

theorem getIp_eq (h : ntop.Lawful) (a : InetAddr) (buf : Vector Char 64) :
    a.getIp ntop buf = some (a.addr.ip ntop) := by
  obtain ⟨buf', hip, hb⟩ := SockAddr.toIp_spec (a := a.addr) h buf.toList
    (by decide : INET6_ADDRSTRLEN ≤ 64)
  rw [getIp, hip, Option.bind_eq_bind, Option.bind_some, hb.content]

theorem getIpPort_eq (h : ntop.Lawful) (e : Endian) (a : InetAddr) (buf : Vector Char 64) :
    a.getIpPort ntop e buf = some (a.addr.printed ntop e) := by
  obtain ⟨buf', hip, hb⟩ := SockAddr.toIpPort_spec (a := a.addr) (e := e) h buf.toList
  rw [getIpPort, hip, Option.bind_eq_bind, Option.bind_some, hb.content]

/-- An address that is made for a port has this port. -/
theorem hostPort_ofPort (he : e.Lawful) (port : BitVec 16) (loopbackOnly ipv6 : Bool) :
    (ofPort e port loopbackOnly ipv6).addr.hostPort e = port := by
  cases ipv6 with
  | false => exact he.bigToNative_nativeToBig 2 port
  | true => exact he.bigToNative_nativeToBig 2 port

/-- `ip:port`, or `[ip]:port`. -/
def ipPort (e : Endian) (a : InetAddr) (ip : List Char) : List Char :=
  let port := Nat.toDigits 10 (a.addr.hostPort e).toNat
  match a.getAddressFamily with
  | .AF_INET => ip ++ ':' :: port
  | .AF_INET6 => '[' :: ip ++ ']' :: ':' :: port

/-- `GetIpPort` prints the address with its port, whatever was in the buffers. -/
def PrintsPort (ntop : InetNtop) (e : Endian) (a : InetAddr) : Prop :=
  ∀ buf buf', ∃ ip, a.getIp ntop buf = some ip ∧ a.getIpPort ntop e buf' = some (a.ipPort e ip)

/-- Every address and every port: the text is `ip:port` or `[ip]:port` exactly for the
addresses of IPv4. -/
theorem getIpPort_iff (h : ntop.Lawful) (e : Endian) (a : InetAddr) :
    a.PrintsPort ntop e ↔ a.getAddressFamily = .AF_INET := by
  rcases a with ⟨a | a⟩
  · refine iff_of_true (fun buf buf' => ⟨_, getIp_eq h _ buf, ?_⟩) rfl
    rw [getIpPort_eq h]
    rfl
  · refine iff_of_false (fun hp => ?_) (show AddressFamily.AF_INET6 ≠ .AF_INET by decide)
    obtain ⟨ip, hip, htext⟩ := hp (.replicate 64 nul) (.replicate 64 nul)
    rw [getIp_eq h] at hip
    obtain rfl := Option.some.inj hip
    rw [getIpPort_eq h] at htext
    -- the bracket is missing
    have hlen := congrArg List.length (Option.some.inj htext)
    simp [ipPort, getAddressFamily, SockAddr.printed, SockAddr.ip, SockAddr.separator] at hlen

/-- The local host. -/
def localHost : InetAddr := ofPort (.host true) 8080 true false

theorem localHost_printsPort : localHost.PrintsPort .plain (.host true) ∧
    localHost.ipPort (.host true) "127.0.0.1".toList = "127.0.0.1:8080".toList :=
  ⟨(getIpPort_iff InetNtop.plain_lawful (.host true) localHost).mpr rfl, by decide⟩

/-- `2001:db8:1:2:3:4:5:6`, port 80. -/
def documentation : InetAddr :=
  ⟨.inet6 ⟨(Endian.host true).nativeToBig 2 80,
    #v[0x20, 0x01, 0x0d, 0xb8, 0, 1, 0, 2, 0, 3, 0, 4, 0, 5, 0, 6]⟩⟩

theorem documentation_without_bracket :
    (∀ buf, documentation.getIp .plain buf = some "2001:db8:1:2:3:4:5:6".toList) ∧
      (∀ buf, documentation.getIpPort .plain (.host true) buf =
        some "2001:db8:1:2:3:4:5:6]:80".toList) ∧
      ¬ documentation.PrintsPort .plain (.host true) := by
  have hip : ∀ buf, documentation.getIp .plain buf = some "2001:db8:1:2:3:4:5:6".toList := by
    intro buf
    rw [getIp_eq InetNtop.plain_lawful]
    decide
  have htext : ∀ buf, documentation.getIpPort .plain (.host true) buf =
      some "2001:db8:1:2:3:4:5:6]:80".toList := by
    intro buf
    rw [getIpPort_eq InetNtop.plain_lawful]
    decide
  refine ⟨hip, htext, fun h => ?_⟩
  obtain ⟨ip, hip', htext'⟩ := h (.replicate 64 nul) (.replicate 64 nul)
  obtain rfl := Option.some.inj ((hip _).symm.trans hip')
  exact absurd ((htext _).symm.trans htext') (by decide)

end InetAddr

end Muduo
