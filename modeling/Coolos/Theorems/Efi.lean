import Coolos.Logic.EfiProtocol
import Coolos.Logic.MapWalk
import Coolos.Theorems.KernelMain

/-!
# `EfiMain`

When it calls `KernelMain` and with what, and when it keeps to the firmware's rules.
-/

namespace Coolos.Theorems

open Lib Lib.Paging Efi EfiFirmware PageAllocator

variable {imageHandle systemTable mapBuffer : Word} {answers : EfiAnswers} {call : KernelCall}
  {mem : Mem}

/-- What `KernelMain` is passed is what the firmware has left. -/
structure HandedOver (systemTable mapBuffer : Word) (answers : EfiAnswers) (call : KernelCall)
    (mem : Mem) : Prop where
  gop : gop answers ≠ 0
  image : answers.image.1 = success
  rsdp : FirstAcpi answers.mem systemTable 0
    (numberOfTableEntries answers.mem systemTable).toNat call.rsdp
  /-- The map is the last one, and with its key boot services have ended. -/
  map : ∃ a ∈ answers.maps, a.status = success ∧ a.exit = success ∧ mem = a.mem ∧
    call = kernelCall (Efi.gop answers) answers.image.2 mapBuffer call.rsdp a

theorem main_result : (main imageHandle systemTable mapBuffer answers).result =
    if gop answers ≠ 0 ∧ answers.image.1 = success then
      (exitLoop imageHandle mapBuffer answers.maps).result.map fun a =>
        (kernelCall (gop answers) answers.image.2 mapBuffer (findRsdp answers.mem systemTable) a,
          a.mem)
    else none := by
  rw [main, Driver.bind_result, locateGop_result, Option.bind_some]
  by_cases null : gop answers = 0
  · simp [null, output]
  by_cases found : answers.image.1 = success
  · have said (text : List (BitVec 16)) : (output text).result = some () := rfl
    simp only [null, found, said, ne_eq, not_true_eq_false, if_false, not_false_eq_true,
      and_self, if_true, Driver.bind_result, Driver.emit_result, Option.bind_some]
    cases (exitLoop imageHandle mapBuffer answers.maps).result <;> rfl
  · rw [if_neg null, if_neg fun both => found both.2]
    simp [found, output]

/-- Where the image is known, the rest is the loop. -/
theorem main_permits : Driver.Permits step (atStart imageHandle)
      (main imageHandle systemTable mapBuffer answers) ↔
    (gop answers ≠ 0 → answers.image.1 = success → Steady answers.maps) := by
  obtain ⟨f, run, post⟩ := locateGop_allows (booting_atStart imageHandle) answers
  have booting := post _ (locateGop_result answers)
  rw [main, Driver.permits_bind run (locateGop_result answers)]
  have silent (f : EfiFirmware) (booting : Booting imageHandle f) (text : List (BitVec 16)) :
      Driver.Permits step f (output text >>= fun _ =>
        (Driver.waits : EfiDriver (KernelCall × Mem))) := by
    have allowed : Driver.Allows step f (output text >>= fun _ =>
        (Driver.waits : EfiDriver (KernelCall × Mem))) fun _ _ => True :=
      output_allows booting text fun _ _ _ => Driver.Allows.waits
    exact allowed.permits
  by_cases null : gop answers = 0
  · rw [if_pos null]
    exact iff_of_true (silent f booting _) fun nonnull => absurd null nonnull
  rw [if_neg null, imp_iff_right null]
  have asked : f.step (.handleProtocol imageHandle loadedImageGuid answers.image.1) =
      some { f with key := none } := if_pos ⟨booting.phase, booting.known⟩
  have booting' : Booting imageHandle { f with key := none } :=
    ⟨booting.phase, booting.same, booting.known⟩
  refine (Driver.permits_emit asked).trans ?_
  by_cases found : answers.image.1 = success
  · rw [if_neg (not_not.mpr found), imp_iff_right found]
    have said (text : List (BitVec 16)) : EfiFirmware.step { f with key := none }
        (.outputString text) = some { f with key := none } := if_pos booting.phase
    refine (Driver.permits_emit (said _)).trans ((Driver.permits_emit (said _)).trans ?_)
    exact Driver.permits_bind_pure.trans (exitLoop_boot booting'.phase booting'.same)
  · rw [if_pos found]
    exact iff_of_true (silent _ booting' _) fun ok => absurd ok found

theorem main_allows {a : MapAnswer}
    (left : (exitLoop imageHandle mapBuffer answers.maps).result = some a) :
    Driver.Allows step (atStart imageHandle) (main imageHandle systemTable mapBuffer answers)
      fun r f => f.phase = .exited r.1.mapKey := by
  refine Driver.Allows.bind (locateGop_allows (booting_atStart _) answers) fun gop f booting => ?_
  split
  · apply output_allows booting
    intro f booting _
    exact Driver.Allows.waits
  apply handle_allows booting booting.known
  intro f booting
  split
  · apply output_allows booting
    intro f booting _
    exact Driver.Allows.waits
  apply output_allows booting
  intro f booting _
  apply output_allows booting
  intro f booting _
  refine Driver.Allows.bind (exitLoop_allows (.inl booting.phase) booting.same left)
    fun a f post => ?_
  exact Driver.Allows.pure post.2.2.2

theorem main_handsOver (returns : (main imageHandle systemTable mapBuffer answers).result =
      some (call, mem)) :
    HandedOver systemTable mapBuffer answers call mem ∧
      ∃ a, (exitLoop imageHandle mapBuffer answers.maps).result = some a := by
  rw [main_result] at returns
  split at returns
  swap
  · cases returns
  rename_i reached
  obtain ⟨a, left, same⟩ := Option.map_eq_some_iff.mp returns
  obtain ⟨passed, found⟩ := Prod.mk.inj same
  have rsdp : call.rsdp = findRsdp answers.mem systemTable := by
    rw [← passed, kernelCall]
  have booting := booting_atStart imageHandle
  obtain ⟨f, -, post⟩ := exitLoop_allows (.inl booting.phase) booting.same left
  obtain ⟨here, ok, out, -⟩ := post a left
  have first := findFrom_first answers.mem systemTable
    (numberOfTableEntries answers.mem systemTable).toNat 0
  rw [Nat.zero_add, ← findRsdp, ← rsdp] at first
  refine ⟨⟨reached.1, reached.2, first, a, here, ok, out, found.symm, ?_⟩, a, left⟩
  rw [rsdp, passed]

/-- `EfiMain` keeps to the firmware's rules exactly as long as `GetMemoryMap` does not fail once
`ExitBootServices` was refused. It calls `KernelMain` exactly when there is a graphics protocol,
the image is found and boot services can be left; then boot services have ended, with the key of
the map it passes. -/
theorem efiMain_protocol (imageHandle systemTable mapBuffer : Word) (answers : EfiAnswers) :
    (Driver.Permits step (atStart imageHandle)
        (main imageHandle systemTable mapBuffer answers) ↔
      (gop answers ≠ 0 → answers.image.1 = success → Steady answers.maps)) ∧
    ((∃ r, (main imageHandle systemTable mapBuffer answers).result = some r) ↔
      gop answers ≠ 0 ∧ answers.image.1 = success ∧ Leaves answers.maps) ∧
    ∀ call mem, (main imageHandle systemTable mapBuffer answers).result = some (call, mem) →
      HandedOver systemTable mapBuffer answers call mem ∧
      ∃ f, (main imageHandle systemTable mapBuffer answers).events.foldlM step
        (atStart imageHandle) = some f ∧ f.phase = .exited call.mapKey := by
  refine ⟨main_permits, ?_, fun call mem returns => ?_⟩
  · rw [main_result, ← exitLoop_leaves answers.maps, ← and_assoc]
    by_cases reached : gop answers ≠ 0 ∧ answers.image.1 = success
    · rw [if_pos reached, and_iff_right reached]
      constructor
      · rintro ⟨r, h⟩
        obtain ⟨a, left, -⟩ := Option.map_eq_some_iff.mp h
        exact ⟨a, left⟩
      · rintro ⟨a, left⟩
        exact ⟨_, Option.map_eq_some_iff.mpr ⟨a, left, rfl⟩⟩
    · rw [if_neg reached]
      exact iff_of_false (fun ⟨_, h⟩ => nomatch h) fun h => reached h.1
  · obtain ⟨handed, a, left⟩ := main_handsOver returns
    have allowed : Driver.Allows step (atStart imageHandle)
        (main imageHandle systemTable mapBuffer answers) _ := main_allows left
    obtain ⟨f, run, post⟩ := allowed
    exact ⟨handed, f, run, post _ returns⟩

/-! ## The memory map -/

/-- The answer is as documented: whole descriptors, no more than there is room for. -/
structure Documented (a : MapAnswer) : Prop where
  fits : a.mapSize.toNat ≤ 16384
  descSize : 32 ≤ a.descSize.toNat
  whole : a.descSize.toNat ∣ a.mapSize.toNat

/-- The static `map_buffer` is in the image that was loaded. -/
structure HoldsBuffer (call : KernelCall) (mapBuffer : Word) : Prop where
  aligned : call.imageBase.toNat % 4096 = 0
  low : call.imageBase.toNat ≤ mapBuffer.toNat
  high : mapBuffer.toNat + 16384 ≤ call.imageBase.toNat + call.imageSize.toNat
  top : call.imageBase.toNat + call.imageSize.toNat + 4096 ≤ 2 ^ 64

/-- The pages of the buffer are marked used. -/
theorem inImage_buffer (holds : HoldsBuffer call mapBuffer) {a : Word}
    (low : mapBuffer.toNat ≤ a.toNat) (high : a.toNat < mapBuffer.toNat + 16384) :
    InImage call.imageBase call.imageSize (page a) := by
  obtain ⟨aligned, below, above, top⟩ := holds
  have start : (call.imageBase / pageSize).toNat = call.imageBase.toNat / 4096 :=
    BitVec.toNat_udiv
  have count : ((call.imageSize + 4095) / 4096).toNat = (call.imageSize.toNat + 4095) / 4096 := by
    have sum : (call.imageSize + 4095).toNat = call.imageSize.toNat + 4095 := by
      rw [BitVec.toNat_add]
      exact Nat.mod_eq_of_lt (by show _ + 4095 < _; omega)
    rw [BitVec.toNat_udiv, sum]
    rfl
  rw [InImage, covers_iff (by omega), start, count, page]
  omega

/-- The buffer holds the map that `EfiMain` passes, whole descriptors. -/
theorem mapShape (handed : HandedOver systemTable mapBuffer answers call mem)
    (documented : ∀ a ∈ answers.maps, a.status = success → Documented a)
    (holds : HoldsBuffer call mapBuffer) :
    call.map = mapBuffer ∧ call.mapSize.toNat ≤ 16384 ∧ 32 ≤ call.descSize.toNat ∧
      MapShape call.map call.mapSize call.descSize
        (call.mapSize.toNat / call.descSize.toNat) := by
  obtain ⟨a, here, ok, -, -, passed⟩ := handed.map
  have size : call.mapSize = a.mapSize := by rw [passed, kernelCall]
  have desc : call.descSize = a.descSize := by rw [passed, kernelCall]
  have place : call.map = mapBuffer := by rw [passed, kernelCall]
  obtain ⟨fits, stride, whole⟩ := documented a here ok
  rw [← size] at fits whole
  rw [← desc] at stride whole
  refine ⟨place, fits, stride, ?_, (Nat.div_mul_cancel whole).symm, ?_⟩
  · omega
  · have below := holds.high
    have top := holds.top
    rw [place]
    omega

/-- The memory map stays in place: `PageTable_Init`, which goes through it in the memory it
writes page tables to, sees the descriptors that `PageAllocator_Init` has seen. -/
theorem memory_map_in_place {cpu : X86.Cpu} {idt : Word → Word} {image : Image} {env : BootEnv}
    {args : BootArgs} {b : Boot}
    (returns : (main imageHandle systemTable mapBuffer answers).result = some (call, mem))
    (documented : ∀ a ∈ answers.maps, a.status = success → Documented a)
    (holds : HoldsBuffer call mapBuffer) (passed : args = call.bootArgs mem)
    (setup : b = (Boot.loaded cpu mem idt).setup image args)
    (supplied : b.Supplied image args env) :
    PageAllocator.zero.initAt mem call.map call.mapSize call.descSize =
      some (PageAllocator.zero.init args.map) ∧
    b.machine.kernel.pageTableInitAt call.fbBase args.fbSize call.map call.mapSize call.descSize
        (b.lapicAddr image args) env.rsp =
      b.machine.kernel.pageTableInit args.fbBase args.fbSize args.map (b.lapicAddr image args)
        env.rsp := by
  obtain ⟨handed, -⟩ := main_handsOver returns
  obtain ⟨place, fits, stride, shape⟩ := mapShape handed documented holds
  have map : args.map = descriptors mem call.map call.descSize
      (call.mapSize.toNat / call.descSize.toNat) := by rw [passed, KernelCall.bootArgs]
  have fbBase : args.fbBase = call.fbBase := by rw [passed, KernelCall.bootArgs]
  have same : b.machine.kernel.mem = mem := by rw [setup, setup_mem]
  obtain ⟨P, i, -, -, covers, enough⟩ := supplied.tables
  have placed := supplied.placed
  rw [map, fbBase] at covers
  rw [map] at placed
  refine ⟨?_, ?_⟩
  · rw [map]
    exact PageAllocator.initAt_eq shape _ mem
  · rw [map, fbBase]
    rw [← same] at placed covers ⊢
    refine Kernel.pageTableInitAt_eq shape placed covers enough fun entry visited j hj free => ?_
    -- a byte of a descriptor is in the buffer
    obtain ⟨n, hn, rfl⟩ := mem_records visited
    have whole := shape.size
    have inside : n * call.descSize.toNat + call.descSize.toNat ≤ call.mapSize.toNat := by
      rw [whole, ← Nat.succ_mul]
      exact Nat.mul_le_mul_right _ hn
    have top := shape.top
    have at_ : (call.map + loc (n * call.descSize.toNat) + loc j).toNat =
        call.map.toNat + (n * call.descSize.toNat + j) := by
      rw [BitVec.add_assoc, ← loc_add, BitVec.toNat_add, toNat_loc (by omega),
        Nat.mod_eq_of_lt (by omega)]
    rw [setup] at free
    refine (setup_free supplied.placed free).2 ?_
    have base : args.imageBase = call.imageBase := by rw [passed, KernelCall.bootArgs]
    have size : args.imageSize = call.imageSize := by rw [passed, KernelCall.bootArgs]
    rw [base, size]
    apply inImage_buffer holds
    · rw [at_, place]
      omega
    · rw [at_, place]
      omega

/-! ## The firmware of the boot -/

/-- The first attempt to leave boot services is refused. -/
def bootAnswers : EfiAnswers where
  locate := (0, 0x5000)
  handles := (0, 0, 0)
  handle := (0, 0)
  image := (0, 0x6000)
  mem := bootTables
  maps := [⟨0, 40, 6, 40, 1, bootTables, 2⟩, ⟨0, 40, 7, 40, 1, bootTables, 0⟩]

def bootCall : KernelCall where
  fbBase := 0x80000000
  width := 32
  height := 32
  ppsl := 32
  mapSize := 40
  map := 0x14000
  mapKey := 7
  descSize := 40
  descVer := 1
  imageBase := 0x10000
  imageSize := 0x10000
  rsdp := 0x4000

theorem bootAnswers_call :
    (main 0x1 0x7000 0x14000 bootAnswers).result = some (bootCall, bootTables) := by
  have rsdp : findRsdp bootTables 0x7000 = 0x4000 := by decide +kernel
  have passed : kernelCall 0x5000 0x6000 0x14000 0x4000
      ⟨0, 40, 7, 40, 1, bootTables, 0⟩ = bootCall := by decide +kernel
  have found : gop bootAnswers = 0x5000 := rfl
  have some : (0x5000 : Word) ≠ 0 := by decide
  have loaded : bootAnswers.image.2 = 0x6000 := rfl
  have mem : bootAnswers.mem = bootTables := rfl
  have left : (exitLoop 0x1 0x14000 bootAnswers.maps).result =
      .some ⟨0, 40, 7, 40, 1, bootTables, 0⟩ := rfl
  rw [main_result, found, if_pos ⟨some, rfl⟩, left, mem, rsdp, loaded, Option.map_some, passed]

theorem bootCall_args : bootCall.bootArgs bootTables = bootArgs := by
  have type : bootTables.read32 0x14000 = 7 := by decide +kernel
  have start : bootTables.read64 (0x14000 + 8) = 0x100000 := by decide +kernel
  have pages : bootTables.read64 (0x14000 + 24) = 8192 := by decide +kernel
  have map : descriptors bootTables 0x14000 40 1 = bootArgs.map := by
    show [descriptorAt bootTables 0x14000] = _
    rw [descriptorAt, type, start, pages]
    rfl
  have count : bootCall.mapSize.toNat / bootCall.descSize.toNat = 1 := by decide
  rw [KernelCall.bootArgs, count]
  show (⟨_, _, _, _, descriptors bootTables 0x14000 40 1, _, _, _⟩ : BootArgs) = _
  rw [map]
  rfl

/-- It calls `KernelMain` with the second map. -/
theorem efiMain_protocol_boot :
    ∃ f, (main 0x1 0x7000 0x14000 bootAnswers).events.foldlM step (atStart 0x1) = some f ∧
      f.phase = .exited 7 := by
  obtain ⟨-, -, handed⟩ := efiMain_protocol 0x1 0x7000 0x14000 bootAnswers
  obtain ⟨-, f, run, phase⟩ := handed bootCall bootTables bootAnswers_call
  exact ⟨f, run, phase⟩

theorem memory_map_in_place_boot :
    bootSetup.machine.kernel.pageTableInitAt 0x80000000 0x1000 0x14000 40 40 0xFEE00000 0xF000 =
      bootSetup.machine.kernel.pageTableInit 0x80000000 0x1000 bootArgs.map 0xFEE00000 0xF000 := by
  have documented : ∀ a ∈ bootAnswers.maps, a.status = success → Documented a := by
    intro a ha _
    rcases List.mem_pair.mp ha with rfl | rfl
    · exact ⟨by decide, by decide, by decide⟩
    · exact ⟨by decide, by decide, by decide⟩
  have holds : HoldsBuffer bootCall 0x14000 := by
    constructor
    all_goals decide
  have setup : bootSetup = (Boot.loaded fromFirmware.cpu bootTables fun _ => 0).setup bootImage
      bootArgs := rfl
  obtain ⟨-, same⟩ := memory_map_in_place bootAnswers_call documented holds bootCall_args.symm
    setup bootSetup_supplied
  have fbSize : bootArgs.fbSize = 0x1000 := by decide
  rw [bootSetup_tables.2.2, fbSize] at same
  exact same

end Coolos.Theorems
