/-
# `Muduo.InetAddr.Model` — InetAddr.h, InetAddr.cpp, base/SocketOps.cpp

An address and how it is printed.  `toIp` and `toIpPort` write into a buffer of
their caller, as `inet_ntop` and `snprintf` do; what lies in the buffer before
that is not determined, and so is an argument.

The text of an address without its port is that of `inet_ntop`, a parameter
(`InetNtop`).  Of the families there are the two that a `SockAddr` has room for;
left out are the flow information and the scope of IPv6, which nothing here
reads, and the conversion from text, which is `inet_pton`.
-/
import Muduo.Buffer.Ints
import Muduo.Lib.Text

namespace Muduo

def INET_ADDRSTRLEN : ℕ := 16
def INET6_ADDRSTRLEN : ℕ := 46

/-- `'\0'`. -/
def nul : Char := Char.ofNat 0

/-- `sa_family_t`. -/
inductive AddressFamily
  | AF_INET | AF_INET6
deriving DecidableEq, Repr

/-- `struct sockaddr_in`; the port and the bytes of the address are in network order. -/
structure SockaddrIn where
  sinPort : BitVec 16
  sinAddr : Vector Byte 4
deriving DecidableEq, Repr

/-- `struct sockaddr_in6`. -/
structure SockaddrIn6 where
  sin6Port : BitVec 16
  sin6Addr : Vector Byte 16
deriving DecidableEq, Repr

/-- `union SockAddr`, by the family that it has. -/
inductive SockAddr
  | inet4 (a : SockaddrIn)
  | inet6 (a : SockaddrIn6)
deriving DecidableEq, Repr

/-- The texts of `inet_ntop`. -/
structure InetNtop where
  inet : Vector Byte 4 → List Char
  inet6 : Vector Byte 16 → List Char

/-- What is documented of them: with a terminator they fit into `INET_ADDRSTRLEN` and
`INET6_ADDRSTRLEN` characters. -/
structure InetNtop.Lawful (ntop : InetNtop) : Prop where
  length_inet : ∀ a, (ntop.inet a).length ≤ 15
  length_inet6 : ∀ a, (ntop.inet6 a).length ≤ 45
  nul_inet : ∀ a, nul ∉ ntop.inet a
  nul_inet6 : ∀ a, nul ∉ ntop.inet6 a

/-- `inet_ntop`; it does not write a text for which there is no room. -/
def inetNtop (text buf : List Char) (size : ℕ) : List Char :=
  if text.length < size then Text.put nul buf 0 text else buf

namespace SockAddr

variable (ntop : InetNtop) (e : Endian)

def toIp (buf : List Char) (size : ℕ) : SockAddr → Option (List Char)
  | .inet4 addrInet => do
      assert (size ≥ INET_ADDRSTRLEN)
      return inetNtop (ntop.inet addrInet.sinAddr) buf size
  | .inet6 addrInet6 => do
      assert (size ≥ INET6_ADDRSTRLEN)
      return inetNtop (ntop.inet6 addrInet6.sin6Addr) buf size

def toIpPort (buf : List Char) (size : ℕ) : SockAddr → Option (List Char)
  | .inet4 addrInet => do
      let buf ← toIp ntop buf size (.inet4 addrInet)
      let port : BitVec 16 := e.bigToNative 2 addrInet.sinPort
      let len ← Text.strlen nul buf
      assert (size > len)
      return Text.snprintf nul buf len (size - len) (':' :: Nat.toDigits 10 port.toNat)
  | .inet6 addrInet6 => do
      let buf := buf.set 0 '['
      -- not behind the bracket
      let buf ← toIp ntop buf size (.inet6 addrInet6)
      let port : BitVec 16 := e.bigToNative 2 addrInet6.sin6Port
      let len ← Text.strlen nul buf
      assert (size > len)
      return Text.snprintf nul buf len (size - len) (']' :: ':' :: Nat.toDigits 10 port.toNat)

end SockAddr

/-- `class InetAddr`. -/
structure InetAddr where
  addr : SockAddr
deriving DecidableEq, Repr

namespace InetAddr

/-- `InetAddr(port, loopback_only, ipv6)`. -/
def ofPort (e : Endian) (port : BitVec 16) (loopbackOnly ipv6 : Bool) : InetAddr :=
  if ipv6 then
    let ip := if loopbackOnly then #v[0, 0, 0, 0, 0, 0, 0, 0, 0, 0, 0, 0, 0, 0, 0, 1]
      else .replicate 16 0
    ⟨.inet6 ⟨e.nativeToBig 2 port, ip⟩⟩
  else
    let ip := if loopbackOnly then #v[127, 0, 0, 1] else .replicate 4 0
    ⟨.inet4 ⟨e.nativeToBig 2 port, ip⟩⟩

def getAddressFamily (a : InetAddr) : AddressFamily :=
  match a.addr with
  | .inet4 _ => .AF_INET
  | .inet6 _ => .AF_INET6

/-- `GetIpPort`, with what lies in its buffer before. -/
def getIpPort (ntop : InetNtop) (e : Endian) (a : InetAddr) (buf : Vector Char 64) :
    Option (List Char) := do
  let buf ← a.addr.toIpPort ntop e buf.toList 64
  Text.content nul buf

/-- `GetIp`. -/
def getIp (ntop : InetNtop) (a : InetAddr) (buf : Vector Char 64) : Option (List Char) := do
  let buf ← a.addr.toIp ntop buf.toList 64
  Text.content nul buf

end InetAddr

end Muduo
