import BitMRC.Utils.UString

/-!
# `NodeBlacklist`

The addresses of known bad nodes stand in a table of texts.  One of the two checks converts
the text it is given and compares addresses; the other one, which `BitMRC::init` uses, compares
`ai_addrlen` bytes of a socket address with an address of four bytes.  `inet_pton` is a
parameter.
-/

namespace BitMRC.NodeBlacklist

/-! ## `inet_pton` -/

/-- The dotted text of an address. -/
def dotted (address : Block 4) : List Char :=
  ['.'].intercalate (address.toUString.map fun octet => Nat.toDigits 10 octet.toNat)

/-- What is relied on of `inet_pton(AF_INET, …)`, which gives an address or returns 0: dotted
text is converted, and the text of an IPv6 address is rejected. -/
structure InetPton (inetPton : List Char → Option (Block 4)) : Prop where
  converts : ∀ address, inetPton (dotted address) = some address
  rejects : ∀ text, ':' ∈ text → inetPton text = none

/-- A number of up to three digits without leading zeros. -/
def octet (digits : List Char) : Option UInt8 :=
  let value := Nat.ofDigitChars 10 digits 0
  if Nat.toDigits 10 value = digits ∧ value < 256 then some (UInt8.ofNat value) else none

theorem length_four (b0 b1 b2 b3 : UInt8) : [b0, b1, b2, b3].length = 4 := rfl

/-- Four numbers with dots between them, as the C library reads them. -/
def inetPton4 (text : List Char) : Option (Block 4) :=
  match (text.splitOn '.').map octet with
  | [some b0, some b1, some b2, some b3] => some ⟨[b0, b1, b2, b3], length_four b0 b1 b2 b3⟩
  | _ => none

theorem octet_toDigits (b : UInt8) : octet (Nat.toDigits 10 b.toNat) = some b := by
  unfold octet
  rw [Nat.ofDigitChars_ten_toDigits, if_pos ⟨rfl, b.toNat_lt⟩, UInt8.ofNat_toNat]

theorem octet_isDigit {digits : List Char} {b : UInt8} (read : octet digits = some b) :
    ∀ char ∈ digits, char.isDigit := by
  have canonical : Nat.toDigits 10 (Nat.ofDigitChars 10 digits 0) = digits := by
    by_contra other
    cases (if_neg fun both => other both.1).symm.trans read
  intro char member
  rw [← canonical] at member
  exact Nat.isDigit_of_mem_toDigits (by decide) (by decide) member

theorem mem_intercalate {char separator : Char} {parts : List (List Char)}
    (member : char ∈ [separator].intercalate parts) :
    char = separator ∨ ∃ part ∈ parts, char ∈ part := by
  induction parts with
  | nil => cases member
  | cons part rest ih =>
      cases rest with
      | nil => exact .inr ⟨part, List.mem_singleton_self _, by simpa using member⟩
      | cons next rest =>
          rw [List.intercalate_cons_cons, List.mem_append, List.mem_append,
            List.mem_singleton] at member
          rcases member with (here | rfl) | later
          · exact .inr ⟨part, List.mem_cons_self, here⟩
          · exact .inl rfl
          · rcases ih later with rfl | ⟨other, among, inside⟩
            · exact .inl rfl
            · exact .inr ⟨other, List.mem_cons_of_mem _ among, inside⟩

theorem inetPton4_inetPton : InetPton inetPton4 where
  converts := by
    intro address
    have length := address.toUString_length
    match bytes : address.toUString, length with
    | [b0, b1, b2, b3], _ =>
        have split : (dotted address).splitOn '.' =
            address.toUString.map fun octet => Nat.toDigits 10 octet.toNat := by
          refine List.splitOn_intercalate '.' ?_ (by simp [bytes])
          intro digits member dot
          obtain ⟨octet, _, rfl⟩ := List.mem_map.mp member
          exact absurd (Nat.isDigit_of_mem_toDigits (by decide) (by decide) dot) (by decide)
        unfold inetPton4
        rw [split, bytes]
        simp only [List.map_cons, List.map_nil, octet_toDigits]
        exact congrArg some (Block.ext bytes.symm)
  rejects := by
    intro text colon
    unfold inetPton4
    split
    next b0 b1 b2 b3 parts =>
      rw [← @List.intercalate_splitOn _ text _ _ '.'] at colon
      rcases mem_intercalate colon with dot | ⟨part, among, inside⟩
      · exact absurd dot (by decide)
      · have read : octet part ∈ [some b0, some b1, some b2, some b3] := by
          rw [← parts]
          exact List.mem_map_of_mem among
        obtain ⟨b, read⟩ : ∃ b, octet part = some b := by
          simp only [List.mem_cons, List.not_mem_nil, or_false] at read
          rcases read with read | read | read | read <;> exact ⟨_, read⟩
        exact absurd (octet_isDigit read ':' inside) (by decide)
    next => rfl

/-! ## The table -/

/-- `netversion_t`. -/
structure NetVersion where
  netaddrVersion : Nat
  addr : List Char

/-- `ip_blacklist`. -/
def ipBlacklist : List NetVersion :=
  [⟨4, "3.224.16.250".toList⟩, ⟨4, "6.187.21.161".toList⟩, ⟨4, "7.53.20.47".toList⟩,
    ⟨4, "7.116.20.110".toList⟩, ⟨4, "9.164.26.190".toList⟩, ⟨4, "13.153.30.131".toList⟩,
    ⟨4, "20.27.7.1".toList⟩, ⟨4, "21.15.6.21".toList⟩, ⟨4, "22.109.5.119".toList⟩,
    ⟨4, "22.143.5.149".toList⟩, ⟨4, "23.181.4.175".toList⟩, ⟨4, "26.60.9.38".toList⟩,
    ⟨4, "26.221.9.199".toList⟩, ⟨4, "28.229.15.255".toList⟩, ⟨4, "29.230.14.252".toList⟩,
    ⟨4, "33.94.50.68".toList⟩, ⟨4, "34.36.49.62".toList⟩, ⟨4, "36.53.55.47".toList⟩,
    ⟨4, "43.52.56.46".toList⟩, ⟨4, "48.92.35.70".toList⟩, ⟨4, "48.145.35.139".toList⟩,
    ⟨4, "51.161.32.187".toList⟩, ⟨4, "54.14.37.20".toList⟩, ⟨4, "54.98.37.120".toList⟩,
    ⟨4, "94.169.77.179".toList⟩, ⟨4, "100.65.242.1".toList⟩, ⟨4, "101.132.118.158".toList⟩,
    ⟨4, "102.113.117.107".toList⟩, ⟨4, "103.34.116.56".toList⟩, ⟨4, "103.114.116.104".toList⟩,
    ⟨4, "103.152.116.130".toList⟩, ⟨4, "103.158.116.132".toList⟩, ⟨4, "114.11.97.17".toList⟩,
    ⟨4, "116.60.103.38".toList⟩, ⟨4, "116.131.103.153".toList⟩, ⟨4, "132.148.151.142".toList⟩,
    ⟨4, "133.216.150.194".toList⟩, ⟨4, "137.29.154.7".toList⟩, ⟨4, "138.11.153.17".toList⟩,
    ⟨4, "139.77.152.87".toList⟩, ⟨4, "139.172.152.182".toList⟩, ⟨4, "140.44.159.54".toList⟩,
    ⟨4, "141.230.158.252".toList⟩, ⟨4, "144.157.131.135".toList⟩, ⟨4, "144.229.131.255".toList⟩,
    ⟨4, "145.17.130.11".toList⟩, ⟨4, "147.24.128.2".toList⟩, ⟨4, "147.190.128.164".toList⟩,
    ⟨4, "152.159.139.133".toList⟩, ⟨4, "153.47.138.53".toList⟩, ⟨4, "154.157.137.135".toList⟩,
    ⟨4, "156.132.143.158".toList⟩, ⟨4, "157.227.142.249".toList⟩, ⟨4, "160.229.179.255".toList⟩,
    ⟨4, "162.3.177.25".toList⟩, ⟨4, "164.25.183.3".toList⟩, ⟨4, "164.189.183.167".toList⟩,
    ⟨4, "164.250.183.224".toList⟩, ⟨4, "165.116.182.110".toList⟩, ⟨4, "167.48.180.42".toList⟩,
    ⟨4, "167.236.180.246".toList⟩, ⟨4, "169.49.186.43".toList⟩, ⟨4, "169.206.186.212".toList⟩,
    ⟨4, "171.47.184.53".toList⟩, ⟨4, "171.185.184.163".toList⟩, ⟨4, "172.27.148.1".toList⟩,
    ⟨4, "176.91.163.65".toList⟩, ⟨4, "179.188.160.166".toList⟩, ⟨4, "185.60.170.38".toList⟩,
    ⟨4, "185.194.170.216".toList⟩, ⟨4, "187.224.168.250".toList⟩, ⟨4, "192.139.211.145".toList⟩,
    ⟨4, "193.26.210.0".toList⟩, ⟨4, "195.216.208.194".toList⟩, ⟨4, "196.163.215.185".toList⟩,
    ⟨4, "196.241.215.235".toList⟩, ⟨4, "197.156.214.134".toList⟩, ⟨4, "203.6.216.28".toList⟩,
    ⟨4, "215.139.196.145".toList⟩, ⟨4, "240.14.227.20".toList⟩, ⟨4, "241.243.226.233".toList⟩,
    ⟨4, "241.248.226.226".toList⟩, ⟨4, "242.15.225.21".toList⟩, ⟨4, "242.116.225.110".toList⟩,
    ⟨4, "242.229.225.255".toList⟩, ⟨4, "243.198.224.220".toList⟩, ⟨4, "243.229.224.255".toList⟩,
    ⟨4, "243.242.224.232".toList⟩, ⟨4, "245.40.230.50".toList⟩, ⟨4, "245.98.230.120".toList⟩,
    ⟨4, "245.99.230.121".toList⟩, ⟨4, "246.185.229.163".toList⟩, ⟨4, "249.229.234.255".toList⟩,
    ⟨4, "250.101.233.127".toList⟩, ⟨4, "250.179.233.169".toList⟩, ⟨4, "251.189.232.167".toList⟩,
    ⟨4, "252.41.239.51".toList⟩, ⟨4, "253.186.238.160".toList⟩, ⟨4, "254.195.237.217".toList⟩,
    ⟨4, "254.238.237.244".toList⟩, ⟨6, "2a01:4eee:3000:0000:00c3:0000:0000:0003".toList⟩,
    ⟨0, "".toList⟩]

/-! ## The two checks -/

/-- `memcmp(left, right, n) == 0`. -/
def memcmp (left right : UString) (n : Nat) : Bool := left.take n == right.take n

/-- The parts of `struct addrinfo` that are read: `ai_addr` points to these bytes. -/
structure AddrInfo where
  aiAddrlen : Nat
  aiAddr : UString

/-- What a check returns, and how many bytes it has compared each time. -/
structure Scan where
  fret : Int
  compared : List Nat

section Checks

variable (inetPton : List Char → Option (Block 4))

/-- The loop of `is_blacklisted(string, uint32_t)`; it goes on behind a match. -/
def scanText (ip : List Char) : List NetVersion → (fret : Int) → Int
  | [], fret => fret
  | bl :: rest, fret =>
      if bl.netaddrVersion = 0 then fret
      else match inetPton ip with
        | none => scanText ip rest fret
        | some ip4In =>
            match inetPton bl.addr with
            | none => scanText ip rest fret
            | some ip4Black =>
                if memcmp ip4In.toUString ip4Black.toUString 4 then scanText ip rest 1
                else scanText ip rest fret

/-- `is_blacklisted(string, uint32_t)`. -/
def isBlacklisted (ip : List Char) (ipV : UInt32) : Int :=
  if ipV = 4 then scanText inetPton ip ipBlacklist 0 else 0

/-- The loop of `is_blacklisted(addrinfo*, int)`; `memory count` are the bytes behind
`ip4_black` when it is compared. -/
def scanAddr (memory : Nat → Nat → UInt8) (ai : AddrInfo) :
    List NetVersion → (count : Nat) → Scan
  | [], _ => ⟨0, []⟩
  | bl :: rest, count =>
      if bl.netaddrVersion = 0 then ⟨0, []⟩
      else match inetPton bl.addr with
        | none => scanAddr memory ai rest count
        | some ip4Black =>
            let count := count + 1
            let behind := List.ofFn fun offset : Fin (ai.aiAddrlen - 4) => memory count offset
            if memcmp ai.aiAddr (ip4Black.toUString ++ behind) ai.aiAddrlen then
              ⟨1, [ai.aiAddrlen]⟩
            else
              let later := scanAddr memory ai rest count
              ⟨later.fret, ai.aiAddrlen :: later.compared⟩

/-- `AF_INET`. -/
def afInet : Nat := 2

/-- `is_blacklisted(addrinfo*, int)`. -/
def isBlacklistedAddr (memory : Nat → Nat → UInt8) (ai : AddrInfo) (family : Nat) : Scan :=
  if family = afInet then scanAddr inetPton memory ai ipBlacklist 0 else ⟨0, []⟩

end Checks

/-- `sockaddr_in`: the family in the byte order of the machine, the port and the address in
that of the network, and zeros. -/
def sockaddrIn (port : UInt16) (address : Block 4) : Block 16 :=
  ⟨2 :: 0 :: (port >>> 8).toUInt8 :: port.toUInt8 :: (address.toUString ++ List.replicate 8 0),
    by simp⟩

/-- What `getaddrinfo` yields for an IPv4 address and a port. -/
def addrInfo (port : UInt16) (address : Block 4) : AddrInfo where
  aiAddrlen := 16
  aiAddr := (sockaddrIn port address).toUString

/-! ## Walks through the table -/

/-- The addresses that a walk through the table compares with. -/
def octets (inetPton : List Char → Option (Block 4)) : List NetVersion → List (Block 4)
  | [] => []
  | bl :: rest =>
      if bl.netaddrVersion = 0 then []
      else match inetPton bl.addr with
        | none => octets inetPton rest
        | some ip4Black => ip4Black :: octets inetPton rest

/-- The listed addresses. -/
def listed : List (Block 4) := octets inetPton4 ipBlacklist

/-- A text that is dotted, of an address that does not start like a socket address, or a text
that has a colon, or the end of the table. -/
def NetVersion.plain (entry : NetVersion) : Bool :=
  entry.netaddrVersion == 0 ||
    match inetPton4 entry.addr with
    | some address => dotted address == entry.addr && address.toUString.head? != some 2
    | none => entry.addr.contains ':'

theorem ipBlacklist_plain : ipBlacklist.all NetVersion.plain = true := by decide +kernel

variable {inetPton : List Char → Option (Block 4)}

theorem memcmp_block (left right : Block 4) :
    memcmp left.toUString right.toUString 4 = true ↔ left = right := by
  have whole (block : Block 4) : block.toUString.take 4 = block.toUString :=
    List.take_of_length_le (Nat.le_of_eq block.toUString_length)
  rw [memcmp, whole, whole, beq_iff_eq]
  exact ⟨Block.ext, congrArg Block.toUString⟩

/-- What is relied on of `inet_pton` says what it makes of a plain entry. -/
theorem inetPton_of_plain (contract : InetPton inetPton) {entry : NetVersion}
    (plain : entry.plain = true) (more : entry.netaddrVersion ≠ 0) :
    inetPton entry.addr = inetPton4 entry.addr ∧
      ∀ address, inetPton4 entry.addr = some address → address.toUString.head? ≠ some 2 := by
  unfold NetVersion.plain at plain
  rw [Bool.or_eq_true, beq_iff_eq, or_iff_right more] at plain
  split at plain
  next address found =>
    rw [Bool.and_eq_true, beq_iff_eq, bne_iff_ne] at plain
    rw [found, ← plain.1, contract.converts]
    refine ⟨rfl, ?_⟩
    rintro _ ⟨⟩
    exact plain.2
  next found =>
    rw [found, contract.rejects _ (List.contains_iff_mem.mp plain)]
    exact ⟨rfl, fun _ impossible => nomatch impossible⟩

theorem octets_of_plain (contract : InetPton inetPton) {table : List NetVersion}
    (plain : table.all NetVersion.plain = true) :
    octets inetPton table = octets inetPton4 table ∧
      ∀ address ∈ octets inetPton4 table, address.toUString.head? ≠ some 2 := by
  induction table with
  | nil => exact ⟨rfl, fun _ impossible => nomatch impossible⟩
  | cons entry rest ih =>
      rw [List.all_cons, Bool.and_eq_true] at plain
      obtain ⟨same, heads⟩ := ih plain.2
      unfold octets
      by_cases last : entry.netaddrVersion = 0
      · simp only [if_pos last]
        exact ⟨trivial, fun _ impossible => nomatch impossible⟩
      · obtain ⟨read, head⟩ := inetPton_of_plain contract plain.1 last
        simp only [if_neg last, read, same]
        cases found : inetPton4 entry.addr with
        | none => exact ⟨trivial, heads⟩
        | some ip4Black =>
            refine ⟨trivial, fun address member => ?_⟩
            rcases List.mem_cons.mp member with rfl | later
            · exact head _ found
            · exact heads address later

theorem octets_ipBlacklist (contract : InetPton inetPton) :
    octets inetPton ipBlacklist = listed :=
  (octets_of_plain contract ipBlacklist_plain).1

/-- The first entry of the table. -/
theorem listed_mem : (⟨[3, 224, 16, 250], rfl⟩ : Block 4) ∈ listed := by
  have first : inetPton4 "3.224.16.250".toList = some ⟨[3, 224, 16, 250], rfl⟩ := by decide
  unfold listed ipBlacklist octets
  rw [if_neg (by decide), first]
  exact List.mem_cons_self

/-- No listed address starts like a socket address. -/
theorem listed_head {address : Block 4} (member : address ∈ listed) :
    address.toUString.head? ≠ some 2 :=
  (octets_of_plain inetPton4_inetPton ipBlacklist_plain).2 address member

/-- A text that is converted is found if and only if its address is in the table. -/
theorem scanText_eq {ip : List Char} {address : Block 4} (converted : inetPton ip = some address)
    (table : List NetVersion) (fret : Int) :
    scanText inetPton ip table fret = if address ∈ octets inetPton table then 1 else fret := by
  induction table generalizing fret with
  | nil => rfl
  | cons entry rest ih =>
      unfold scanText octets
      by_cases last : entry.netaddrVersion = 0
      · rw [if_pos last, if_pos last]
        rfl
      · rw [if_neg last, if_neg last, converted]
        cases black : inetPton entry.addr with
        | none => exact ih fret
        | some ip4Black =>
            simp only [memcmp_block, ih, List.mem_cons]
            by_cases found : address = ip4Black
            · simp only [found, true_or, if_true, ite_self]
            · rw [if_neg found]
              simp only [found, false_or]

/-- The comparisons of `is_blacklisted(addrinfo*, int)` with a list of addresses. -/
def compareAll (memory : Nat → Nat → UInt8) (ai : AddrInfo) :
    List (Block 4) → (count : Nat) → Scan
  | [], _ => ⟨0, []⟩
  | ip4Black :: rest, count =>
      let count := count + 1
      let behind := List.ofFn fun offset : Fin (ai.aiAddrlen - 4) => memory count offset
      if memcmp ai.aiAddr (ip4Black.toUString ++ behind) ai.aiAddrlen then ⟨1, [ai.aiAddrlen]⟩
      else
        let later := compareAll memory ai rest count
        ⟨later.fret, ai.aiAddrlen :: later.compared⟩

theorem scanAddr_eq (memory : Nat → Nat → UInt8) (ai : AddrInfo) (table : List NetVersion)
    (count : Nat) :
    scanAddr inetPton memory ai table count =
      compareAll memory ai (octets inetPton table) count := by
  induction table generalizing count with
  | nil => rfl
  | cons entry rest ih =>
      unfold scanAddr octets
      by_cases last : entry.netaddrVersion = 0
      · rw [if_pos last, if_pos last]
        rfl
      · rw [if_neg last, if_neg last]
        cases inetPton entry.addr with
        | none => exact ih count
        | some ip4Black =>
            simp only [ih]
            rfl

/-- Nothing is found where no address agrees with the start of `ai_addr`. -/
theorem compareAll_fret_eq_zero (memory : Nat → Nat → UInt8) {ai : AddrInfo}
    {addresses : List (Block 4)} (count : Nat)
    (apart : ∀ ip4Black ∈ addresses, ∀ behind,
      memcmp ai.aiAddr (ip4Black.toUString ++ behind) ai.aiAddrlen = false) :
    (compareAll memory ai addresses count).fret = 0 := by
  induction addresses generalizing count with
  | nil => rfl
  | cons ip4Black rest ih =>
      simp only [compareAll, apart ip4Black List.mem_cons_self]
      exact ih (count + 1) fun other later => apart other (List.mem_cons_of_mem _ later)

/-- With the first address already `ai_addrlen` bytes are compared. -/
theorem mem_compareAll_compared (memory : Nat → Nat → UInt8) (ai : AddrInfo)
    {addresses : List (Block 4)} (count : Nat) (nonempty : addresses ≠ []) :
    ai.aiAddrlen ∈ (compareAll memory ai addresses count).compared := by
  cases addresses with
  | nil => exact absurd rfl nonempty
  | cons ip4Black rest =>
      unfold compareAll
      dsimp only
      split <;> exact List.mem_cons_self

/-- Four raw bytes are found if and only if they are one of the addresses. -/
theorem compareAll_fret_eq (memory : Nat → Nat → UInt8) (address : Block 4)
    (addresses : List (Block 4)) (count : Nat) :
    (compareAll memory ⟨4, address.toUString⟩ addresses count).fret =
      if address ∈ addresses then 1 else 0 := by
  induction addresses generalizing count with
  | nil => rfl
  | cons ip4Black rest ih =>
      simp only [compareAll, List.ofFn_zero, List.append_nil, memcmp_block, ih, List.mem_cons]
      by_cases found : address = ip4Black
      · simp only [found, true_or, if_true]
      · simp only [found, false_or, if_false]

/-! ## The two checks on one address -/

/-- A socket address starts with its family, and no listed address does. -/
theorem memcmp_sockaddrIn (port : UInt16) (address : Block 4) {ip4Black : Block 4}
    (member : ip4Black ∈ listed) (behind : UString) :
    memcmp (sockaddrIn port address).toUString (ip4Black.toUString ++ behind) 16 = false := by
  have family := listed_head member
  have length := ip4Black.toUString_length
  match bytes : ip4Black.toUString, length with
  | [b0, b1, b2, b3], _ =>
      rw [bytes] at family
      rw [memcmp, beq_eq_false_iff_ne]
      intro same
      have first := congrArg List.head? same
      exact family first.symm

/-- The first check finds exactly the listed addresses. -/
theorem isBlacklisted_dotted (contract : InetPton inetPton) (address : Block 4) :
    isBlacklisted inetPton (dotted address) 4 = if address ∈ listed then 1 else 0 := by
  rw [isBlacklisted, if_pos rfl, scanText_eq (contract.converts address),
    octets_ipBlacklist contract]

/-- On four raw bytes, which `test_binaddr` uses, the second check does what the first one
does. -/
theorem isBlacklistedAddr_octets (contract : InetPton inetPton) (memory : Nat → Nat → UInt8)
    (address : Block 4) :
    (isBlacklistedAddr inetPton memory ⟨4, address.toUString⟩ afInet).fret =
      isBlacklisted inetPton (dotted address) 4 := by
  rw [isBlacklisted_dotted contract, isBlacklistedAddr, if_pos rfl, scanAddr_eq,
    compareAll_fret_eq, octets_ipBlacklist contract]

/-- The second check finds no socket address. -/
theorem isBlacklistedAddr_fret (contract : InetPton inetPton) (memory : Nat → Nat → UInt8)
    (port : UInt16) (address : Block 4) :
    (isBlacklistedAddr inetPton memory (addrInfo port address) afInet).fret = 0 := by
  rw [isBlacklistedAddr, if_pos rfl, scanAddr_eq, octets_ipBlacklist contract]
  apply compareAll_fret_eq_zero
  intro ip4Black member behind
  exact memcmp_sockaddrIn port address member behind

/-- The second check compares 16 bytes with an address of four. -/
theorem mem_isBlacklistedAddr_compared (contract : InetPton inetPton)
    (memory : Nat → Nat → UInt8) (port : UInt16) (address : Block 4) :
    16 ∈ (isBlacklistedAddr inetPton memory (addrInfo port address) afInet).compared := by
  rw [isBlacklistedAddr, if_pos rfl, scanAddr_eq, octets_ipBlacklist contract]
  exact mem_compareAll_compared memory (addrInfo port address) 0 (List.ne_nil_of_mem listed_mem)

/-- The two checks of one address agree, and the second one compares only bytes that belong
to a listed address. -/
def Agree (inetPton : List Char → Option (Block 4)) (memory : Nat → Nat → UInt8)
    (address : Block 4) (port : UInt16) : Prop :=
  ((isBlacklistedAddr inetPton memory (addrInfo port address) afInet).fret = 1 ↔
      isBlacklisted inetPton (dotted address) 4 = 1) ∧
    ∀ n ∈ (isBlacklistedAddr inetPton memory (addrInfo port address) afInet).compared, n ≤ 4

/-- The second check never finds a socket address and always compares bytes behind the listed
one; with the first check it agrees exactly on the addresses that are not listed. -/
theorem blacklists_not_agree (contract : InetPton inetPton) (memory : Nat → Nat → UInt8)
    (address : Block 4) (port : UInt16) :
    ¬Agree inetPton memory address port ∧
      (((isBlacklistedAddr inetPton memory (addrInfo port address) afInet).fret = 1 ↔
        isBlacklisted inetPton (dotted address) 4 = 1) ↔ address ∉ listed) := by
  constructor
  · rintro ⟨_, bounded⟩
    exact absurd (bounded 16 (mem_isBlacklistedAddr_compared contract memory port address))
      (by decide)
  · rw [isBlacklisted_dotted contract, isBlacklistedAddr_fret contract]
    by_cases found : address ∈ listed
    · simp [found]
    · simp [found]

theorem blacklists_not_agree_sample :
    ¬Agree inetPton4 (fun _ _ => 0) ⟨[127, 0, 0, 1], rfl⟩ 8444 ∧
      (((isBlacklistedAddr inetPton4 (fun _ _ => 0) (addrInfo 8444 ⟨[127, 0, 0, 1], rfl⟩)
          afInet).fret = 1 ↔
        isBlacklisted inetPton4 (dotted ⟨[127, 0, 0, 1], rfl⟩) 4 = 1) ↔
          ⟨[127, 0, 0, 1], rfl⟩ ∉ listed) :=
  blacklists_not_agree inetPton4_inetPton (fun _ _ => 0) ⟨[127, 0, 0, 1], rfl⟩ 8444

/-- The first listed address is found by its text and not by its socket address. -/
theorem not_agree_listed :
    isBlacklisted inetPton4 (dotted ⟨[3, 224, 16, 250], rfl⟩) 4 = 1 ∧
      (isBlacklistedAddr inetPton4 (fun _ _ => 0) (addrInfo 8444 ⟨[3, 224, 16, 250], rfl⟩)
        afInet).fret = 0 ∧
      ¬Agree inetPton4 (fun _ _ => 0) ⟨[3, 224, 16, 250], rfl⟩ 8444 := by
  have text := (isBlacklisted_dotted inetPton4_inetPton ⟨[3, 224, 16, 250], rfl⟩).trans
    (if_pos listed_mem)
  have addr := isBlacklistedAddr_fret inetPton4_inetPton (fun _ _ => 0) 8444
    ⟨[3, 224, 16, 250], rfl⟩
  refine ⟨text, addr, fun agree => ?_⟩
  exact absurd (addr.symm.trans (agree.1.mpr text)) (by decide)

end BitMRC.NodeBlacklist
