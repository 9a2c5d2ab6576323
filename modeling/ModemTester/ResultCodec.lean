import ModemTester.Events

/-
  The eight bytes of a throughput result, as written by
  `RemoteThroughput::sendResults` and read by
  `MasterThroughput::receiveResults`.

  Both copy a `uint32_t` to or from the buffer byte by byte
  as it lies in memory, after `htonl` or before `ntohl`, so
  the host's byte order appears twice and cancels.

  Key definitions include:
    * `ByteOrder`
    * `htonl`
    * `decodeResults`
    * `resultBytes`
    * `copyBytes`
    * `Host`
    * `ResultBuf.sendResults`
    * `ResultBuf.receiveResults`

  Main declarations:
    * `ResultBuf.receiveResults_of_bytes`
    * `ResultBuf.sendResults_receiveResults`
-/

------------------------------------------------------------
-- Words In Memory
------------------------------------------------------------

namespace ModemTester

/- A `uint32_t`. -/
abbrev Word := Fin 4294967296

instance neZeroWord :
    @NeZero Nat Zero.ofOfNat0 4294967296 :=
  ⟨by decide⟩

/- The byte order of a host. -/
inductive ByteOrder where
  | bigEndian
  | littleEndian
  deriving DecidableEq, Repr

/- The bytes of a word, the least significant first. -/
def littleBytes (word : Word) : List Byte :=
  [Fin.ofNat 256 word.val,
    Fin.ofNat 256 (word.val / 256),
    Fin.ofNat 256 (word.val / 65536),
    Fin.ofNat 256 (word.val / 16777216)]

/- The word with these bytes, the least significant first. -/
def ofLittleBytes (bytes : List Byte) : Word :=
  Fin.ofNat 4294967296
    (bytes.foldr (fun byte rest => byte.val + 256 * rest) 0)

/- A word as it lies in memory. -/
def memoryBytes (order : ByteOrder) (word : Word) :
    List Byte :=
  match order with
  | .bigEndian => (littleBytes word).reverse
  | .littleEndian => littleBytes word

/- The word that lies in memory as these bytes. -/
def ofMemoryBytes (order : ByteOrder) (bytes : List Byte) :
    Word :=
  match order with
  | .bigEndian => ofLittleBytes bytes.reverse
  | .littleEndian => ofLittleBytes bytes

/- `htonl`: a little-endian host reverses the bytes. -/
def htonl (order : ByteOrder) (word : Word) : Word :=
  match order with
  | .bigEndian => word
  | .littleEndian => ofLittleBytes (littleBytes word).reverse

/- `ntohl` does the same. -/
def ntohl (order : ByteOrder) (word : Word) : Word :=
  htonl order word

/- What `receiveResults` makes of its buffer. -/
def decodeResults
    (order : ByteOrder)
    (recvBuf : List Byte) : Word × Word :=
  (ntohl order (ofMemoryBytes order (recvBuf.take 4)),
    ntohl order
      (ofMemoryBytes order ((recvBuf.drop 4).take 4)))

/- The two totals in network order. -/
def resultBytes (totalReceived totalUsec : Word) :
    List Byte :=
  (littleBytes totalReceived).reverse ++
    (littleBytes totalUsec).reverse

------------------------------------------------------------
-- Byte Orders Cancel
------------------------------------------------------------

theorem ofLittleBytes_littleBytes (word : Word) :
    ofLittleBytes (littleBytes word) = word := by
  apply Fin.ext
  have hLt := word.isLt
  simp only [ofLittleBytes, littleBytes, List.foldr,
    Fin.val_ofNat]
  omega

/- Four bytes are the bytes of their word. -/
theorem littleBytes_ofLittleBytes (a b c d : Byte) :
    littleBytes (ofLittleBytes [a, b, c, d]) =
      [a, b, c, d] := by
  have hA := a.isLt
  have hB := b.isLt
  have hC := c.isLt
  have hD := d.isLt
  simp only [ofLittleBytes, littleBytes, List.foldr,
    Fin.val_ofNat, List.cons.injEq, Fin.ext_iff, and_true]
  omega

theorem littleBytes_ofLittleBytes_reverse (word : Word) :
    littleBytes (ofLittleBytes (littleBytes word).reverse) =
      (littleBytes word).reverse := by
  simp only [littleBytes, List.reverse_cons, List.reverse_nil,
    List.nil_append, List.cons_append]
  exact littleBytes_ofLittleBytes _ _ _ _

/- Every host sends a word in network order. -/
theorem memoryBytes_htonl
    (order : ByteOrder)
    (word : Word) :
    memoryBytes order (htonl order word) =
      (littleBytes word).reverse := by
  cases order with
  | bigEndian => rfl
  | littleEndian =>
      exact littleBytes_ofLittleBytes_reverse word

------------------------------------------------------------
-- The Copying Loops
------------------------------------------------------------

/-
  `count` rounds of `target[j++] = source[i++]`: both the
  loop `sendBuf[i] = *ptr++` and `*ptr++ = _recvBuf[i]`,
  with the position of `ptr` in the scratch word as the
  index there.
-/
def copyBytes (source : List Byte) :
    (count i j : Nat) → List Byte → List Byte
  | 0, _, _, target => target
  | count + 1, i, j, target =>
      copyBytes source count (i + 1) (j + 1)
        (target.set j (source.getD i 0))

theorem length_copyBytes
    (source : List Byte)
    (count i j : Nat)
    (target : List Byte) :
    (copyBytes source count i j target).length =
      target.length := by
  induction count generalizing i j target with
  | zero => rfl
  | succ count ih => rw [copyBytes, ih, List.length_set]

/- Inside its bounds the loop replaces one segment. -/
theorem copyBytes_eq
    {source target : List Byte}
    {count i j : Nat}
    (hSource : i + count ≤ source.length)
    (hTarget : j + count ≤ target.length) :
    copyBytes source count i j target =
      target.take j ++ (source.drop i).take count ++
        target.drop (j + count) := by
  induction count generalizing i j target with
  | zero => simp [copyBytes]
  | succ count ih =>
      have hHere : i < source.length := by omega
      have hThere : j < target.length := by omega
      have hHead : source.drop i =
          source[i] :: source.drop (i + 1) :=
        List.drop_eq_getElem_cons hHere
      have hGet : source.getD i 0 = source[i] := by
        simp [hHere]
      have hTake :
          (target.set j source[i]).take (j + 1) =
            target.take j ++ [source[i]] := by
        rw [List.take_add_one, List.take_set_of_le le_rfl,
          List.getElem?_set_self hThere]
        rfl
      have hDrop :
          (target.set j source[i]).drop (j + 1 + count) =
            target.drop (j + (count + 1)) := by
        rw [List.drop_set_of_lt (by omega)]
        congr 1
        omega
      rw [copyBytes, ih (by omega) (by rw [List.length_set]; omega),
        hGet, hTake, hDrop, hHead, List.take_succ_cons]
      simp only [List.append_assoc, List.cons_append,
        List.nil_append]

------------------------------------------------------------
-- Hosts
------------------------------------------------------------

/-
  A machine with some byte order: how a `uint32_t` lies in
  its memory, with its `htonl` and `ntohl`, which put a word
  into network order there and take it back.
-/
structure Host where
  memoryBytes : Word → List Byte
  ofMemoryBytes : List Byte → Word
  htonl : Word → Word
  ntohl : Word → Word
  length_memoryBytes :
    ∀ word, (memoryBytes word).length = 4
  ofMemoryBytes_memoryBytes :
    ∀ word, ofMemoryBytes (memoryBytes word) = word
  memoryBytes_ofMemoryBytes :
    ∀ bytes, bytes.length = 4 →
      memoryBytes (ofMemoryBytes bytes) = bytes
  memoryBytes_htonl :
    ∀ word, memoryBytes (htonl word) =
      (littleBytes word).reverse
  ntohl_htonl : ∀ word, ntohl (htonl word) = word
  htonl_ntohl : ∀ word, htonl (ntohl word) = word

/- Reversing the four bytes twice gives the word back. -/
theorem htonl_htonl
    (order : ByteOrder)
    (word : Word) :
    htonl order (htonl order word) = word := by
  cases order with
  | bigEndian => rfl
  | littleEndian =>
      simp only [htonl]
      rw [littleBytes_ofLittleBytes_reverse,
        List.reverse_reverse]
      exact ofLittleBytes_littleBytes word

/- Four bytes in memory are those of the word they form. -/
theorem memoryBytes_ofMemoryBytes
    (order : ByteOrder)
    (bytes : List Byte)
    (hLength : bytes.length = 4) :
    memoryBytes order (ofMemoryBytes order bytes) =
      bytes := by
  rcases bytes with _ | ⟨a, _ | ⟨b, _ | ⟨c, _ | ⟨d, rest⟩⟩⟩⟩
  all_goals simp only [List.length_nil, List.length_cons]
    at hLength
  any_goals omega
  have hRest : rest = [] :=
    List.eq_nil_of_length_eq_zero (by omega)
  subst hRest
  cases order with
  | bigEndian =>
      simp only [memoryBytes, ofMemoryBytes,
        List.reverse_cons, List.reverse_nil, List.nil_append,
        List.cons_append, littleBytes_ofLittleBytes]
  | littleEndian => exact littleBytes_ofLittleBytes a b c d

theorem ofMemoryBytes_memoryBytes
    (order : ByteOrder)
    (word : Word) :
    ofMemoryBytes order (memoryBytes order word) = word := by
  cases order with
  | bigEndian =>
      simp only [memoryBytes, ofMemoryBytes,
        List.reverse_reverse]
      exact ofLittleBytes_littleBytes word
  | littleEndian => exact ofLittleBytes_littleBytes word

/- The hosts of the two usual byte orders. -/
def ByteOrder.host (order : ByteOrder) : Host where
  memoryBytes := ModemTester.memoryBytes order
  ofMemoryBytes := ModemTester.ofMemoryBytes order
  htonl := ModemTester.htonl order
  ntohl := ModemTester.ntohl order
  length_memoryBytes word := by cases order <;> rfl
  ofMemoryBytes_memoryBytes :=
    ModemTester.ofMemoryBytes_memoryBytes order
  memoryBytes_ofMemoryBytes :=
    ModemTester.memoryBytes_ofMemoryBytes order
  memoryBytes_htonl := ModemTester.memoryBytes_htonl order
  ntohl_htonl := htonl_htonl order
  htonl_ntohl := htonl_htonl order

------------------------------------------------------------
-- The Two Buffers
------------------------------------------------------------

/- `std::array<uint8_t, 2*sizeof(uint32_t)>`. -/
structure ResultBuf where
  bytes : List Byte
  length_bytes : bytes.length = 8

namespace ResultBuf

theorem ext_bytes
    {buf buf' : ResultBuf}
    (hBytes : buf.bytes = buf'.bytes) :
    buf = buf' := by
  cases buf
  cases buf'
  cases hBytes
  rfl

/-
  `sendResults` from the first `htonl` to the `write`. The
  array holds anything before the loops.
-/
def sendResults
    (host : Host)
    (sendBuf : ResultBuf)
    (totalReceived totalUsec : Word) : ResultBuf :=
  let data := host.htonl totalReceived
  let sendBuf₁ :=
    copyBytes (host.memoryBytes data) 4 0 0 sendBuf.bytes
  let data := host.htonl totalUsec
  let sendBuf₂ :=
    copyBytes (host.memoryBytes data) 4 0 4 sendBuf₁
  ⟨sendBuf₂, by
    simp only [sendBuf₂, sendBuf₁, length_copyBytes]
    exact sendBuf.length_bytes⟩

/-
  `receiveResults` on a read without an error. `data` is not
  initialised, and the second loop overwrites what the first
  has left in it.
-/
def receiveResults
    (host : Host)
    (data : Word)
    (recvBuf : ResultBuf)
    (bytesAvailable : Nat) : Option (Word × Word) :=
  if bytesAvailable ≠ 8 then
    none
  else
    let data₁ := host.ofMemoryBytes
      (copyBytes recvBuf.bytes 4 0 0 (host.memoryBytes data))
    let totalReceived := host.ntohl data₁
    let data₂ := host.ofMemoryBytes
      (copyBytes recvBuf.bytes 4 4 0 (host.memoryBytes data₁))
    let totalUsec := host.ntohl data₂
    some (totalReceived, totalUsec)

/- The loops of the sender leave the totals in order. -/
theorem bytes_sendResults
    (host : Host)
    (sendBuf : ResultBuf)
    (totalReceived totalUsec : Word) :
    (sendBuf.sendResults host totalReceived totalUsec).bytes =
      resultBytes totalReceived totalUsec := by
  have hSize := sendBuf.length_bytes
  have hWord : ∀ word : Word,
      (littleBytes word).reverse.length = 4 := fun _ => rfl
  have hFirst :
      copyBytes (littleBytes totalReceived).reverse 4 0 0
          sendBuf.bytes =
        (littleBytes totalReceived).reverse ++
          sendBuf.bytes.drop 4 := by
    rw [copyBytes_eq (by rw [hWord]) (by omega),
      List.take_zero, List.nil_append, List.drop_zero,
      List.take_of_length_le (hWord _).le, Nat.zero_add]
  have hRest : (sendBuf.bytes.drop 4).length = 4 := by
    rw [List.length_drop, hSize]
  simp only [sendResults, host.memoryBytes_htonl, hFirst]
  rw [copyBytes_eq (by rw [hWord])
      (by rw [List.length_append, hWord, hRest]),
    List.take_left' (hWord _), List.drop_zero,
    List.take_of_length_le (hWord _).le,
    List.drop_of_length_le
      (by rw [List.length_append, hWord, hRest]),
    List.append_nil]
  rfl

/- One loop of the receiver reads four bytes of its buffer. -/
theorem copyBytes_word
    (host : Host)
    (recvBuf : ResultBuf)
    (data : Word)
    {i : Nat}
    (hInside : i + 4 ≤ 8) :
    copyBytes recvBuf.bytes 4 i 0 (host.memoryBytes data) =
      (recvBuf.bytes.drop i).take 4 := by
  have hSize := recvBuf.length_bytes
  have hData := host.length_memoryBytes data
  rw [copyBytes_eq (by omega) (by omega), List.take_zero,
    List.nil_append,
    List.drop_of_length_le (l := host.memoryBytes data)
      (by omega),
    List.append_nil]

theorem receiveResults_eq
    (host : Host)
    (data : Word)
    (recvBuf : ResultBuf) :
    recvBuf.receiveResults host data 8 =
      some (host.ntohl
          (host.ofMemoryBytes (recvBuf.bytes.take 4)),
        host.ntohl
          (host.ofMemoryBytes
            ((recvBuf.bytes.drop 4).take 4))) := by
  simp only [receiveResults, ne_eq, not_true_eq_false,
    if_false]
  rw [copyBytes_word host recvBuf _ (by omega),
    copyBytes_word host recvBuf _ (by omega), List.drop_zero]

/- On the usual hosts the loops are `decodeResults`. -/
theorem receiveResults_host
    (order : ByteOrder)
    (data : Word)
    (recvBuf : ResultBuf) :
    recvBuf.receiveResults order.host data 8 =
      some (decodeResults order recvBuf.bytes) := by
  rw [receiveResults_eq]
  rfl

------------------------------------------------------------
-- Round Trips
------------------------------------------------------------

/- A host takes back what lies in network order. -/
theorem ntohl_networkBytes
    (host : Host)
    (word : Word) :
    host.ntohl
        (host.ofMemoryBytes (littleBytes word).reverse) =
      word := by
  rw [← host.memoryBytes_htonl, host.ofMemoryBytes_memoryBytes,
    host.ntohl_htonl]

/- A buffer with the bytes of two totals is read as them. -/
theorem receiveResults_of_bytes
    (host : Host)
    (data : Word)
    {recvBuf : ResultBuf}
    {totalReceived totalUsec : Word}
    (hBytes : recvBuf.bytes =
      resultBytes totalReceived totalUsec) :
    recvBuf.receiveResults host data 8 =
      some (totalReceived, totalUsec) := by
  have hFirst :
      (resultBytes totalReceived totalUsec).take 4 =
        (littleBytes totalReceived).reverse := rfl
  have hSecond :
      ((resultBytes totalReceived totalUsec).drop 4).take 4 =
        (littleBytes totalUsec).reverse := rfl
  rw [receiveResults_eq, hBytes, hFirst, hSecond,
    ntohl_networkBytes, ntohl_networkBytes]

/- Four bytes are the network order of the word taken. -/
theorem networkBytes_ntohl
    (host : Host)
    {bytes : List Byte}
    (hLength : bytes.length = 4) :
    (littleBytes
        (host.ntohl (host.ofMemoryBytes bytes))).reverse =
      bytes := by
  rw [← host.memoryBytes_htonl, host.htonl_ntohl,
    host.memoryBytes_ofMemoryBytes bytes hLength]

/-
  Whatever the byte orders, the receiver gets the totals of
  the sender, and each buffer is the one that would be sent
  for what it is read as.
-/
theorem sendResults_receiveResults
    (sender receiver : Host)
    (sendBuf : ResultBuf)
    (data : Word) :
    (∀ totalReceived totalUsec,
      (sendBuf.sendResults sender totalReceived
          totalUsec).receiveResults receiver data 8 =
        some (totalReceived, totalUsec)) ∧
    (∀ recvBuf : ResultBuf, ∃ totalReceived totalUsec,
      recvBuf.receiveResults receiver data 8 =
          some (totalReceived, totalUsec) ∧
        sendBuf.sendResults sender totalReceived totalUsec =
          recvBuf) := by
  constructor
  · intro totalReceived totalUsec
    exact receiveResults_of_bytes receiver data
      (bytes_sendResults sender sendBuf ..)
  · intro recvBuf
    have hSize := recvBuf.length_bytes
    have hFirst : (recvBuf.bytes.take 4).length = 4 := by
      rw [List.length_take, hSize]
      rfl
    have hSecond :
        ((recvBuf.bytes.drop 4).take 4).length = 4 := by
      rw [List.length_take, List.length_drop, hSize]
      rfl
    have hWhole : (recvBuf.bytes.drop 4).take 4 =
        recvBuf.bytes.drop 4 :=
      List.take_of_length_le
        (by rw [List.length_drop, hSize])
    refine ⟨_, _, receiveResults_eq receiver data recvBuf, ?_⟩
    apply ext_bytes
    rw [bytes_sendResults, resultBytes,
      networkBytes_ntohl receiver hFirst,
      networkBytes_ntohl receiver hSecond, hWhole,
      List.take_append_drop]

end ResultBuf

end ModemTester
