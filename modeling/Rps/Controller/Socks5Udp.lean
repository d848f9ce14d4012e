import Rps.Base.Cursor
import Rps.Controller.IpText

/-! Datagrams of a SOCKS5 association.

A datagram carries its address in front of the payload, in the form a request has it on
the stream. It is parsed by index (`parse_udp_addr`), the request by reads
(`read_socks_addr`): two programs for one grammar. `parsers_agree` says that they take the
same addresses from the same bytes and fail on the same bytes, wherever the address
begins.

`udp_codec`: parsing and encoding are inverse to each other, on every datagram that is
parsed and on every address that either parser returns, as far as the standard library
reads its own text of an address back. -/
namespace Rps.Controller.Socks5
open Base

/-! ### The parser -/

/-- The host behind the address type, and where it ends. -/
def parseUdpHost (packet : Bytes) (atyp : UInt8) (cursor : Nat) : Checked (String × Nat) :=
  if atyp = atypIpv4 then do
    .ensure (packet.length ≥ cursor + 4) "truncated ipv4 address"
    let raw ← .slice packet cursor (cursor + 4)
    pure (ipv4ToString raw, cursor + 4)
  else if atyp = atypIpv6 then do
    .ensure (packet.length ≥ cursor + 16) "truncated ipv6 address"
    let raw ← .slice packet cursor (cursor + 16)
    pure (ipv6ToString raw, cursor + 16)
  else if atyp = atypDomain then do
    .ensure (packet.length > cursor) "missing domain length"
    let len ← .index packet cursor
    .ensure (packet.length ≥ cursor + 1 + len.toNat) "truncated domain"
    let raw ← .slice packet (cursor + 1) (cursor + 1 + len.toNat)
    let host ← .ofExcept (fromUtf8 raw)
    pure (host, cursor + 1 + len.toNat)
  else .failed s!"unsupported socks address type {atyp}"

def parseUdpAddr (packet : Bytes) (offset : Nat) : Checked (SocksAddr × Nat) := do
  .ensure (packet.length > offset) "missing address type"
  let atyp ← .index packet offset
  let (host, cursor) ← parseUdpHost packet atyp (offset + 1)
  .ensure (packet.length ≥ cursor + 2) "missing port"
  let raw ← .slice packet cursor (cursor + 2)
  pure (⟨host, UInt16.ofNat (ofBe raw), atyp⟩, cursor + 2)

def parseUdpPacket (packet : Bytes) : Checked (SocksAddr × Bytes) := do
  .ensure (packet.length ≥ 4) "packet too short"
  let first ← .index packet 0
  let second ← .index packet 1
  .ensure (first = 0 ∧ second = 0) "invalid reserved bytes"
  let frag ← .index packet 2
  .ensure (frag = 0) "fragmented udp packets are not supported"
  let (addr, offset) ← parseUdpAddr packet 3
  .ensure (packet.length ≥ offset) "packet too short for payload"
  let payload ← .slice packet offset packet.length
  pure (addr, payload)

/-! ### The encoder -/

/-- The bytes of the host in a datagram. -/
def SocksAddr.encodeHost (ip : IpText) (addr : SocksAddr) : Except String Bytes :=
  if addr.atyp = atypIpv4 then ip.parseIpv4 addr.host
  else if addr.atyp = atypIpv6 then ip.parseIpv6 addr.host
  else if addr.atyp = atypDomain then
    if (utf8 addr.host).length ≤ 255 then .ok (field (utf8 addr.host)) else .error "domain name too long"
  else .error s!"unsupported socks address type {addr.atyp}"

def SocksAddr.encodeUdpResponse (ip : IpText) (addr : SocksAddr) (payload : Bytes) : Except String Bytes := do
  let host ← addr.encodeHost ip
  pure ([0, 0, 0, addr.atyp] ++ host ++ toBe 2 addr.port.toNat ++ payload)

/-! ### Against the reader of requests -/

theorem readU8_nil : readU8 [] = .more := rfl

theorem readU8_cons (b : UInt8) (rest : Bytes) : readU8 (b :: rest) = .done b rest := by
  simp [readU8, Reader.bind_apply, Reader.readExact]

theorem parseUdpHost_follows (packet : Bytes) (atyp : UInt8) {cursor : Nat} (h : cursor ≤ packet.length) :
    Checked.Follows packet (parseUdpHost packet atyp cursor) (readHost atyp (packet.drop cursor)) := by
  unfold parseUdpHost readHost
  split
  · exact .take h _ fun raw hraw => .done hraw
  · split
    · exact .take h _ fun raw hraw => .done hraw
    · split
      · refine .next _ readU8_nil readU8_cons fun len hlen => ?_
        exact .take hlen _ fun raw hraw => .ofExcept hraw
      · exact ⟨_, rfl⟩

/-- From behind the address type on, a datagram is parsed as a request is read. -/
theorem parseUdpAddr_follows (packet : Bytes) {offset : Nat} (h : offset < packet.length) :
    Checked.Follows packet (parseUdpAddr packet offset)
      (readSocksAddr packet[offset] (packet.drop (offset + 1))) := by
  have hatyp : Checked.index packet offset = .ok packet[offset] :=
    Checked.index_eq (List.drop_eq_getElem_cons h)
  rw [parseUdpAddr, Checked.ensure_bind h, hatyp, Checked.ok_bind]
  refine (parseUdpHost_follows packet _ h).bind fun host cursor hcursor => ?_
  have hport : readU16 >>= (fun port => pure (⟨host, port, packet[offset]⟩ : SocksAddr)) =
      (Reader.readExact 2 >>= fun raw => pure ⟨host, UInt16.ofNat (ofBe raw), packet[offset]⟩) := by
    funext input
    rw [Reader.bind_apply, readU16, Reader.bind_apply, Reader.bind_apply]
    cases Reader.readExact 2 input <;> rfl
  rw [hport]
  exact .take hcursor _ fun raw hraw => .done hraw

/-- **The two parsers agree** on every byte string and at every place in it: they return the
same address behind the same bytes, and fail on the same bytes. -/
theorem parsers_agree (packet : Bytes) (offset : Nat) (h : offset < packet.length) :
    (∀ addr cursor, parseUdpAddr packet offset = .ok (addr, cursor) ↔
      cursor ≤ packet.length ∧
        readSocksAddr packet[offset] (packet.drop (offset + 1)) = .done addr (packet.drop cursor)) ∧
    ((∃ error, parseUdpAddr packet offset = .failed error) ↔
      ∃ error, (readSocksAddr packet[offset]).closed (packet.drop (offset + 1)) = .invalid error) := by
  have hfollows := parseUdpAddr_follows packet h
  refine ⟨hfollows.ok_iff, hfollows.failed_iff.trans ?_⟩
  unfold Reader.closed
  cases readSocksAddr packet[offset] (packet.drop (offset + 1)) <;> simp

/-- The address type of the domain `a` and what is behind it. -/
theorem parsers_agree_domain :
    parseUdpAddr [0, 3, 1, 0x61, 0, 80, 9] 1 = .ok (⟨"a", 80, 3⟩, 6) ∧
      readSocksAddr 3 [1, 0x61, 0, 80, 9] = .done ⟨"a", 80, 3⟩ [9] := by
  have hparse : parseUdpAddr [0, 3, 1, 0x61, 0, 80, 9] 1 = .ok (⟨"a", 80, 3⟩, 6) := by decide
  exact ⟨hparse, (((parsers_agree [0, 3, 1, 0x61, 0, 80, 9] 1 (by decide)).1 _ _).mp hparse).2⟩

/-! ### Parsing and encoding -/

/-- A datagram to an address with a payload. -/
def Datagram (addr : SocksAddr) (payload packet : Bytes) : Prop :=
  ∃ host, HostWord addr.atyp addr.host host ∧
    packet = [0, 0, 0, addr.atyp] ++ host ++ toBe 2 addr.port.toNat ++ payload

/-- The reserved bytes are checked, and the address begins behind them. -/
theorem parseUdpPacket_cons (rest : Bytes) (reserved₀ reserved₁ frag atyp : UInt8) :
    parseUdpPacket (reserved₀ :: reserved₁ :: frag :: atyp :: rest) =
      if reserved₀ = 0 ∧ reserved₁ = 0 then
        if frag = 0 then do
          let (addr, offset) ← parseUdpAddr (reserved₀ :: reserved₁ :: frag :: atyp :: rest) 3
          .ensure ((reserved₀ :: reserved₁ :: frag :: atyp :: rest).length ≥ offset) "packet too short for payload"
          let payload ← .slice (reserved₀ :: reserved₁ :: frag :: atyp :: rest) offset
            (reserved₀ :: reserved₁ :: frag :: atyp :: rest).length
          pure (addr, payload)
        else .failed "fragmented udp packets are not supported"
      else .failed "invalid reserved bytes" := by
  rw [parseUdpPacket, Checked.ensure_bind (by simp), Checked.index_eq rfl, Checked.ok_bind, Checked.index_eq rfl,
    Checked.ok_bind]
  split
  · rename_i hreserved
    rw [Checked.ensure_bind hreserved, Checked.index_eq rfl, Checked.ok_bind]
    split
    · rename_i hfrag
      rw [Checked.ensure_bind hfrag]
    · rename_i hfrag
      rw [Checked.ensure_bind_of_not hfrag]
  · rename_i hreserved
    rw [Checked.ensure_bind_of_not hreserved]

/-- What the reader of requests makes of the rest of a datagram is made of it. -/
theorem parseUdpPacket_reader (atyp : UInt8) (rest : Bytes) :
    (∀ addr payload, readSocksAddr atyp rest = .done addr payload →
      parseUdpPacket ([0, 0, 0, atyp] ++ rest) = .ok (addr, payload)) ∧
    ((∀ addr payload, readSocksAddr atyp rest ≠ .done addr payload) →
      ∃ error, parseUdpPacket ([0, 0, 0, atyp] ++ rest) = .failed error) := by
  have hfollows : Checked.Follows ([0, 0, 0, atyp] ++ rest) (parseUdpAddr ([0, 0, 0, atyp] ++ rest) 3)
      (readSocksAddr atyp rest) := parseUdpAddr_follows ([0, 0, 0, atyp] ++ rest) (by simp)
  have hparse : parseUdpPacket ([0, 0, 0, atyp] ++ rest) = _ := parseUdpPacket_cons rest 0 0 0 atyp
  rw [if_pos ⟨rfl, rfl⟩, if_pos rfl] at hparse
  constructor
  · intro addr payload hread
    rw [hread] at hfollows
    obtain ⟨stop, hstop, haddr, rfl⟩ := hfollows
    have hslice : Checked.slice (0 :: 0 :: 0 :: atyp :: rest) stop (0 :: 0 :: 0 :: atyp :: rest).length =
        .ok ((0 :: 0 :: 0 :: atyp :: rest).drop stop) := by
      rw [Checked.slice, if_pos ⟨hstop, Nat.le_refl _⟩, List.take_of_length_le (by rw [List.length_drop])]
    rw [hparse]
    change (parseUdpAddr ([0, 0, 0, atyp] ++ rest) 3 >>= _) = _
    rw [haddr, Checked.ok_bind]
    refine (Checked.ensure_bind hstop _ _).trans ?_
    rw [hslice]
    rfl
  · intro hread
    obtain ⟨error, haddr⟩ := hfollows.failed_iff.mpr hread
    refine ⟨error, ?_⟩
    rw [hparse]
    change (parseUdpAddr ([0, 0, 0, atyp] ++ rest) 3 >>= _) = _
    rw [haddr, Checked.failed_bind]

/-- A byte string is a datagram with its reserved bytes zero, or it is refused. -/
theorem datagram_cases (packet : Bytes) :
    (∃ atyp rest, packet = [0, 0, 0, atyp] ++ rest) ∨
      (∃ error, parseUdpPacket packet = .failed error) ∧ ∀ atyp rest, packet ≠ [0, 0, 0, atyp] ++ rest := by
  match packet with
  | [] | [_] | [_, _] | [_, _, _] =>
    refine .inr ⟨⟨"packet too short", Checked.ensure_bind_of_not (by simp) _ _⟩, fun atyp rest heq => ?_⟩
    have := congrArg List.length heq
    simp at this
  | reserved₀ :: reserved₁ :: frag :: atyp :: rest =>
    by_cases hreserved : reserved₀ = 0 ∧ reserved₁ = 0
    · by_cases hfrag : frag = 0
      · obtain ⟨rfl, rfl⟩ := hreserved
        subst hfrag
        exact .inl ⟨atyp, rest, rfl⟩
      · refine .inr ⟨⟨"fragmented udp packets are not supported", ?_⟩, fun atyp' rest' heq => ?_⟩
        · rw [parseUdpPacket_cons, if_pos hreserved, if_neg hfrag]
        · simp only [List.cons_append, List.cons.injEq] at heq
          exact hfrag heq.2.2.1
    · refine .inr ⟨⟨"invalid reserved bytes", ?_⟩, fun atyp' rest' heq => ?_⟩
      · rw [parseUdpPacket_cons, if_neg hreserved]
      · simp only [List.cons_append, List.cons.injEq] at heq
        exact hreserved ⟨heq.1, heq.2.1⟩

theorem parseUdpPacket_not_panicked (packet : Bytes) : parseUdpPacket packet ≠ .panicked := by
  rcases datagram_cases packet with ⟨atyp, rest, rfl⟩ | ⟨⟨error, herror⟩, -⟩
  · obtain ⟨hdone, hfailed⟩ := parseUdpPacket_reader atyp rest
    cases hread : readSocksAddr atyp rest with
    | done addr payload =>
      rw [hdone addr payload hread]
      exact nofun
    | more =>
      obtain ⟨error, herror⟩ := hfailed (by simp [hread])
      rw [herror]
      exact nofun
    | invalid _ =>
      obtain ⟨error, herror⟩ := hfailed (by simp [hread])
      rw [herror]
      exact nofun
  · rw [herror]
    exact nofun

/-- The datagrams, and nothing else, are parsed. -/
theorem parseUdpPacket_eq_ok {packet payload : Bytes} {addr : SocksAddr} :
    parseUdpPacket packet = .ok (addr, payload) ↔ Datagram addr payload packet := by
  constructor
  · intro hparse
    rcases datagram_cases packet with ⟨atyp, rest, rfl⟩ | ⟨⟨error, herror⟩, -⟩
    · obtain ⟨hdone, hfailed⟩ := parseUdpPacket_reader atyp rest
      by_cases hread : ∃ addr payload, readSocksAddr atyp rest = .done addr payload
      · obtain ⟨addr', payload', hread⟩ := hread
        rw [hdone addr' payload' hread] at hparse
        cases hparse
        obtain ⟨word, ⟨rfl, host, hhost, rfl⟩, rfl⟩ := (readSocksAddr_exact atyp rest addr payload).mp hread
        exact ⟨host, hhost, by simp⟩
      · obtain ⟨error, herror⟩ := hfailed (by simpa using hread)
        rw [herror] at hparse
        cases hparse
    · rw [herror] at hparse
      cases hparse
  · intro h
    obtain ⟨host, hhost, rfl⟩ := h
    have hread : readSocksAddr addr.atyp (host ++ toBe 2 addr.port.toNat ++ payload) = .done addr payload :=
      (readSocksAddr_exact addr.atyp _ addr payload).mpr ⟨_, ⟨rfl, host, hhost, rfl⟩, rfl⟩
    have hparse := (parseUdpPacket_reader addr.atyp _).1 addr payload hread
    simpa using hparse

/-- The host of an address is written as it was read. -/
theorem encodeHost_eq {ip : IpText} (hip : ip.ParsesBack) {addr : SocksAddr} {atyp : UInt8} {text : String}
    {host : Bytes} (h : HostWord atyp text host) (hatyp : addr.atyp = atyp) (htext : addr.host = text) :
    addr.encodeHost ip = .ok host := by
  rw [SocksAddr.encodeHost, hatyp, htext]
  cases h with
  | ipv4 _ hlen =>
    rw [if_pos rfl]
    exact hip.ipv4 host hlen
  | ipv6 _ hlen =>
    rw [if_neg (by decide), if_pos rfl]
    exact hip.ipv6 host hlen
  | domain _ hlen =>
    rw [if_neg (by decide), if_neg (by decide), if_pos rfl, if_pos (by omega)]

theorem encodeUdpResponse_eq {ip : IpText} (hip : ip.ParsesBack) {addr : SocksAddr} {payload packet : Bytes}
    (h : Datagram addr payload packet) : addr.encodeUdpResponse ip payload = .ok packet := by
  obtain ⟨host, hhost, rfl⟩ := h
  rw [SocksAddr.encodeUdpResponse, encodeHost_eq hip hhost rfl rfl]
  rfl

/-- One of the parsers returns the address. -/
def Obtainable (addr : SocksAddr) : Prop :=
  (∃ packet offset cursor, parseUdpAddr packet offset = .ok (addr, cursor)) ∨
    ∃ atyp stream rest, readSocksAddr atyp stream = .done addr rest

theorem Obtainable.hostWord {addr : SocksAddr} (h : Obtainable addr) : ∃ host, HostWord addr.atyp addr.host host := by
  have hread : ∃ atyp stream rest, readSocksAddr atyp stream = .done addr rest := by
    rcases h with ⟨packet, offset, cursor, hparse⟩ | hread
    · have hlt : offset < packet.length := by
        by_contra hnot
        rw [parseUdpAddr, Checked.ensure_bind_of_not hnot] at hparse
        cases hparse
      exact ⟨_, _, _, ((parseUdpAddr_follows packet hlt).ok_iff addr cursor |>.mp hparse).2⟩
    · exact hread
  obtain ⟨atyp, stream, rest, hread⟩ := hread
  obtain ⟨-, ⟨-, host, hhost, -⟩, -⟩ := (readSocksAddr_exact atyp stream addr rest).mp hread
  exact ⟨host, hhost⟩

/-- **The codec of datagrams.** No byte string makes the parser look beyond it; what is
parsed is encoded as the bytes it was parsed from; and every address that can come up, with
any payload, is encoded as bytes that are parsed as these. -/
theorem udp_codec (ip : IpText) (hip : ip.ParsesBack) :
    (∀ packet, parseUdpPacket packet ≠ .panicked ∧
      ∀ addr payload, parseUdpPacket packet = .ok (addr, payload) → addr.encodeUdpResponse ip payload = .ok packet) ∧
    (∀ addr, Obtainable addr → ∀ payload, ∃ packet,
      addr.encodeUdpResponse ip payload = .ok packet ∧ parseUdpPacket packet = .ok (addr, payload)) := by
  constructor
  · intro packet
    refine ⟨parseUdpPacket_not_panicked packet, fun addr payload hparse => ?_⟩
    exact encodeUdpResponse_eq hip (parseUdpPacket_eq_ok.mp hparse)
  · intro addr haddr payload
    obtain ⟨host, hhost⟩ := haddr.hostWord
    have hdatagram : Datagram addr payload _ := ⟨host, hhost, rfl⟩
    exact ⟨_, encodeUdpResponse_eq hip hdatagram, parseUdpPacket_eq_ok.mpr hdatagram⟩

/-- A datagram to `[::1]:53` from its bytes and back, and one to the domain `a`. -/
theorem udp_codec_canonical :
    (parseUdpPacket ([0, 0, 0, 4] ++ List.replicate 15 0 ++ [1, 0, 53, 7]) = .ok (⟨"::1", 53, 4⟩, [7]) ∧
      (⟨"::1", 53, 4⟩ : SocksAddr).encodeUdpResponse .canonical [7] =
        .ok ([0, 0, 0, 4] ++ List.replicate 15 0 ++ [1, 0, 53, 7])) ∧
    ∃ packet, (⟨"a", 80, 3⟩ : SocksAddr).encodeUdpResponse .canonical [9] = .ok packet ∧
      parseUdpPacket packet = .ok (⟨"a", 80, 3⟩, [9]) := by
  obtain ⟨hparsed, hencoded⟩ := udp_codec .canonical IpText.canonical_parsesBack
  have hparse : parseUdpPacket ([0, 0, 0, 4] ++ List.replicate 15 0 ++ [1, 0, 53, 7]) = .ok (⟨"::1", 53, 4⟩, [7]) := by
    decide +kernel
  refine ⟨⟨hparse, (hparsed _).2 _ _ hparse⟩, hencoded _ (.inl ⟨[3, 1, 0x61, 0, 80], 0, 5, by decide⟩) [9]⟩

end Rps.Controller.Socks5
