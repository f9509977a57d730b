import Persea.BaseIp

/-! The address of a client: `client_ip` believes the header `X-Forwarded-For` of a request that comes from a trusted
proxy. Addresses and networks are read and written by the standard library and a crate. -/

namespace Persea.Auth

open Base Base.Text List

def isVisible (c : Char) : Bool := c = '\t' || 32 ≤ c.toNat && c.toNat < 127

structure IpLib where
  parseIp : Text → Option IpAddr
  parseNetwork : Text → Option IpNetwork
  format : IpAddr → Text
  parseIp_v4 : ∀ t bits, Ip.parseV4 t = some bits → parseIp t = some (.v4 bits)
  format_visible : ∀ ip, (format ip).all isVisible = true

variable (lib : IpLib)

def isTrusted (trustedProxies : List Text) (socketAddr : IpAddr) : Bool :=
  (trustedProxies.filterMap lib.parseNetwork).any (Ip.contains · socketAddr)

/-- `to_str` of a header value. -/
def toStr (value : Text) : Option Text := if value.all isVisible then some value else none

/-- The headers are the values of `X-Forwarded-For`. -/
def clientIp (headers : List Text) (socketAddr : IpAddr) (trustedProxies : List Text) : IpAddr :=
  if isTrusted lib trustedProxies socketAddr then
    ((headers.head?.bind toStr).bind fun xff => lib.parseIp (trim ((xff.splitOn ',').headD []))).getD socketAddr
  else socketAddr

/-- What arrives when the client has sent some values: the proxy appends its peer to the list, or adds a line. -/
def forwarded (joins : Bool) (sent : List Text) (peer : IpAddr) : List Text :=
  if joins then [", ".toList.intercalate (sent ++ [lib.format peer])] else sent ++ [lib.format peer]

theorem clientIp_sent (joins : Bool) {address : Text} {bits : BitVec 32} (hread : Ip.parseV4 address = some bits)
    (hvisible : address.all isVisible) (htrim : trim address = address) (hcomma : ',' ∉ address) (peer : IpAddr)
    {socketAddr : IpAddr} {trustedProxies : List Text} (htrusted : isTrusted lib trustedProxies socketAddr) :
    clientIp lib (forwarded lib joins [address] peer) socketAddr trustedProxies = .v4 bits := by
  have hfirst : ∀ rest, (address ++ rest).all isVisible → ((address ++ rest).splitOn ',').headD [] = address →
      ∀ lines, clientIp lib ((address ++ rest) :: lines) socketAddr trustedProxies = .v4 bits := by
    intro rest hrest hhead lines
    rw [clientIp, if_pos htrusted, head?_cons, Option.bind_some, toStr, if_pos hrest, Option.bind_some, hhead, htrim,
      lib.parseIp_v4 address bits hread, Option.getD_some]
  cases joins with
  | false =>
    have h := hfirst [] (by rwa [append_nil]) (by rw [append_nil, splitOn_eq_singleton hcomma]; rfl) [lib.format peer]
    rwa [append_nil] at h
  | true =>
    rw [forwarded, if_pos rfl, cons_append, nil_append, intercalate_cons_cons, intercalate_singleton, append_assoc]
    refine hfirst (',' :: ' ' :: lib.format peer) ?_ ?_ []
    · rw [all_append, hvisible, all_cons, all_cons, lib.format_visible peer]
      rfl
    · rw [splitOn_append_cons_self_of_not_mem hcomma]
      rfl

/-- **The client chooses its address** through every trusted proxy: what it sends makes no difference exactly if the
header is not believed at all. -/
theorem clientIp_unchosen_iff (joins : Bool) (peer socketAddr : IpAddr) (trustedProxies : List Text) :
    (∀ sent sent', clientIp lib (forwarded lib joins sent peer) socketAddr trustedProxies =
        clientIp lib (forwarded lib joins sent' peer) socketAddr trustedProxies) ↔
      isTrusted lib trustedProxies socketAddr = false := by
  constructor
  · intro hsame
    by_contra htrusted
    rw [Bool.not_eq_false] at htrusted
    have h := hsame ["0.0.0.0"] ["0.0.0.1"]
    rw [@clientIp_sent lib joins "0.0.0.0" 0 (by decide) (by decide) (by decide) (by decide) peer _ _ htrusted,
      @clientIp_sent lib joins "0.0.0.1" 1 (by decide) (by decide) (by decide) (by decide) peer _ _ htrusted] at h
    cases h
  · intro huntrusted sent sent'
    simp only [clientIp, huntrusted, Bool.false_eq_true, if_false]

def dottedLib : IpLib where
  parseIp t := (Ip.parseV4 t).map .v4
  parseNetwork := Ip.parseNetV4
  format _ := "203.0.113.9"
  parseIp_v4 t bits h := by rw [h]; rfl
  format_visible _ := by decide

/-- **A forged address.** The client is taken for the address that it has sent. -/
theorem clientIp_forged :
    clientIp dottedLib (forwarded dottedLib true [] (.v4 0xcb007109#32)) (.v4 0x0a000001#32) ["10.0.0.0/8"] =
        .v4 0xcb007109#32 ∧
      clientIp dottedLib (forwarded dottedLib true ["1.2.3.4"] (.v4 0xcb007109#32)) (.v4 0x0a000001#32) ["10.0.0.0/8"] =
        .v4 0x01020304#32 := by
  decide +kernel

end Persea.Auth
