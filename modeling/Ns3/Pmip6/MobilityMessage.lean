import Ns3.Core.Timer
import Ns3.Network.Address

/-!
# Proxy binding updates and acknowledgements

The two messages of the protocol (`pmip6/model/ipv6-mobility-header.h`), with their options
(`ipv6-mobility-option-header.h`) as the option headers that are put into a message and taken
out of it, and the `Ipv6MobilityOptionBundle` a receiver collects them in. The octets between
the two are left out, but for what they do to an option: a time stamp travels in microseconds.
-/

namespace Ns3.Pmip6

/-- `Ipv6MobilityHeader::BAStatus_e`. -/
inductive BAStatus where
  /-- `BA_STATUS_BINDING_UPDATE_ACCEPTED`. -/
  | bindingUpdateAccepted
  /-- `BA_STATUS_REASON_UNSPECIFIED`. -/
  | reasonUnspecified
  /-- `BA_STATUS_ADMINISTRATIVELY_PROHIBITED`. -/
  | administrativelyProhibited
  /-- `BA_STATUS_INSUFFICIENT_RESOURCES`. -/
  | insufficientResources
  /-- `BA_STATUS_PROXY_REG_NOT_ENABLED`. -/
  | proxyRegNotEnabled
  /-- `BA_STATUS_NOT_LMA_FOR_THIS_MOBILE_NODE`. -/
  | notLmaForThisMobileNode
  /-- `BA_STATUS_NOT_AUTHORIZED_FOR_PROXY_REG`. -/
  | notAuthorizedForProxyReg
  /-- `BA_STATUS_MAG_NOT_AUTHORIZED_FOR_HOME_NETWORK_PREFIX`. -/
  | magNotAuthorizedForHomeNetworkPrefix
  /-- `BA_STATUS_TIMESTAMP_MISMATCH`. -/
  | timestampMismatch
  /-- `BA_STATUS_TIMESTAMP_LOWER_THAN_PREV_ACCEPTED`. -/
  | timestampLowerThanPrevAccepted
  /-- `BA_STATUS_MISSING_HOME_NETWORK_PREFIX_OPTION`. -/
  | missingHomeNetworkPrefixOption
  /-- `BA_STATUS_BCE_PBU_PREFIX_SET_DO_NOT_MATCH`. -/
  | bcePbuPrefixSetDoNotMatch
  /-- `BA_STATUS_MISSING_MN_IDENTIFIER_OPTION`. -/
  | missingMnIdentifierOption
  /-- `BA_STATUS_MISSING_HANDOFF_INDICATOR_OPTION`. -/
  | missingHandoffIndicatorOption
  /-- `BA_STATUS_MISSING_ACCESS_TECH_TYPE_OPTION`. -/
  | missingAccessTechTypeOption
  deriving DecidableEq

/-- The value of a status in the `uint8_t` field of the message. -/
def BAStatus.code : BAStatus → UInt8
  | bindingUpdateAccepted => 0
  | reasonUnspecified => 128
  | administrativelyProhibited => 129
  | insufficientResources => 130
  | proxyRegNotEnabled => 152
  | notLmaForThisMobileNode => 153
  | notAuthorizedForProxyReg => 154
  | magNotAuthorizedForHomeNetworkPrefix => 155
  | timestampMismatch => 156
  | timestampLowerThanPrevAccepted => 157
  | missingHomeNetworkPrefixOption => 158
  | bcePbuPrefixSetDoNotMatch => 159
  | missingMnIdentifierOption => 160
  | missingHandoffIndicatorOption => 161
  | missingAccessTechTypeOption => 162

/-! The values of `OptionHandoffIndicator_e` and `OptionAccessTechType_e` the code compares with;
the fields themselves hold any octet. -/

/-- `OPT_HI_RESERVED`. -/
def optHiReserved : UInt8 := 0

/-- `OPT_HI_HANDOFF_BETWEEN_DIFFERENT_INTERFACES`. -/
def optHiHandoffBetweenDifferentInterfaces : UInt8 := 2

/-- `OPT_HI_HANDOFF_STATE_UNKNOWN`. -/
def optHiHandoffStateUnknown : UInt8 := 4

/-- `OPT_ATT_RESERVED`. -/
def optAttReserved : UInt8 := 0

/-- What the options of a message say. -/
structure Ipv6MobilityOptionBundle where
  mnIdentifier : Identifier := .empty
  mnLinkIdentifier : Identifier := .empty
  homeNetworkPrefixes : List Ipv6Address := []
  magLinkAddress : Ipv6Address := .zero
  accessTechnologyType : UInt8 := 0
  handoffIndicator : UInt8 := 0
  timestamp : ℤ := Time.seconds 0
  deriving DecidableEq

/-- The mobility options of the protocol. -/
inductive MobilityOption where
  /-- `Ipv6MobilityOptionMobileNodeIdentifierHeader`. -/
  | mobileNodeIdentifier (subtype : UInt8) (nodeIdentifier : Identifier)
  /-- `Ipv6MobilityOptionHomeNetworkPrefixHeader`. -/
  | homeNetworkPrefix (hnp : Ipv6Address) (prefixLength : UInt8)
  /-- `Ipv6MobilityOptionHandoffIndicatorHeader`. -/
  | handoffIndicator (hi : UInt8)
  /-- `Ipv6MobilityOptionAccessTechnologyTypeHeader`. -/
  | accessTechnologyType (att : UInt8)
  /-- `Ipv6MobilityOptionMobileNodeLinkLayerIdentifierHeader`. -/
  | mobileNodeLinkLayerIdentifier (linkLayerIdentifier : Identifier)
  /-- `Ipv6MobilityOptionLinkLocalAddressHeader`. -/
  | linkLocalAddress (lla : Ipv6Address)
  /-- `Ipv6MobilityOptionTimestampHeader`. -/
  | timestamp (timestamp : ℤ)

namespace MobilityOption

/-- An option as its receiver takes it out of the packet: `Serialize` writes
`GetMicroSeconds ()` of a time stamp and `Deserialize` reads `MicroSeconds`. -/
def received : MobilityOption → MobilityOption
  | timestamp t => timestamp (Time.cutToMicroSeconds t)
  | o => o

/-- `Ipv6MobilityOption::Process` of each option. -/
def process (bundle : Ipv6MobilityOptionBundle) (option : MobilityOption) : Ipv6MobilityOptionBundle :=
  match option.received with
  | mobileNodeIdentifier subtype nodeIdentifier =>
    if subtype = 1 then { bundle with mnIdentifier := nodeIdentifier } else bundle
  | homeNetworkPrefix hnp _ =>
    { bundle with homeNetworkPrefixes := bundle.homeNetworkPrefixes ++ [hnp] }
  | handoffIndicator hi => { bundle with handoffIndicator := hi }
  | accessTechnologyType att => { bundle with accessTechnologyType := att }
  | mobileNodeLinkLayerIdentifier llid => { bundle with mnLinkIdentifier := llid }
  | linkLocalAddress lla => { bundle with magLinkAddress := lla }
  | timestamp t => { bundle with timestamp := t }

end MobilityOption

/-- The options one after the other; of a kind, the last one counts. -/
def processOptions (options : List MobilityOption) : Ipv6MobilityOptionBundle :=
  options.foldl MobilityOption.process {}

/-- A binding update, as far as it is looked at. -/
structure Ipv6MobilityBindingUpdateHeader where
  sequence : UInt16 := 0
  flagA : Bool := false
  flagH : Bool := false
  flagL : Bool := false
  flagP : Bool := false
  lifetime : UInt16 := 0
  options : List MobilityOption := []

/-- A binding acknowledgement, as far as it is looked at. -/
structure Ipv6MobilityBindingAckHeader where
  status : UInt8 := 0
  flagP : Bool := false
  sequence : UInt16 := 0
  lifetime : UInt16 := 0
  options : List MobilityOption := []

/-- The bundle the receiver of an update collects. -/
def Ipv6MobilityBindingUpdateHeader.bundle (pbu : Ipv6MobilityBindingUpdateHeader) :
    Ipv6MobilityOptionBundle := processOptions pbu.options

/-- The bundle the receiver of an acknowledgement collects. -/
def Ipv6MobilityBindingAckHeader.bundle (pba : Ipv6MobilityBindingAckHeader) :
    Ipv6MobilityOptionBundle := processOptions pba.options

/-! ### What the receiver collects -/

theorem processOptions_append (os os' : List MobilityOption) :
    processOptions (os ++ os') = os'.foldl MobilityOption.process (processOptions os) := by
  rw [processOptions, List.foldl_append]
  rfl

theorem foldl_process_homeNetworkPrefix (n : UInt8) (hnps : List Ipv6Address)
    (bundle : Ipv6MobilityOptionBundle) :
    (hnps.map (MobilityOption.homeNetworkPrefix · n)).foldl MobilityOption.process bundle =
      { bundle with homeNetworkPrefixes := bundle.homeNetworkPrefixes ++ hnps } := by
  induction hnps generalizing bundle with
  | nil => simp
  | cons hnp hnps ih =>
    rw [List.map_cons, List.foldl_cons, ih]
    simp [MobilityOption.process, MobilityOption.received]

/-- The time stamp of a received message is a whole number of microseconds. -/
theorem cut_timestamp_processOptions (os : List MobilityOption) :
    Time.cutToMicroSeconds (processOptions os).timestamp = (processOptions os).timestamp := by
  have hstep : ∀ (bundle : Ipv6MobilityOptionBundle) (o : MobilityOption),
      Time.cutToMicroSeconds bundle.timestamp = bundle.timestamp →
      Time.cutToMicroSeconds (MobilityOption.process bundle o).timestamp =
        (MobilityOption.process bundle o).timestamp := by
    intro bundle o hb
    cases o with
    | timestamp t => exact Time.cutToMicroSeconds_cutToMicroSeconds t
    | mobileNodeIdentifier subtype nodeIdentifier =>
      simp only [MobilityOption.process, MobilityOption.received]
      split <;> exact hb
    | _ => exact hb
  have hfold : ∀ (os : List MobilityOption) (bundle : Ipv6MobilityOptionBundle),
      Time.cutToMicroSeconds bundle.timestamp = bundle.timestamp →
      Time.cutToMicroSeconds (os.foldl MobilityOption.process bundle).timestamp =
        (os.foldl MobilityOption.process bundle).timestamp := by
    intro os
    induction os with
    | nil => exact fun _ hb => hb
    | cons o os ih => exact fun bundle hb => ih _ (hstep bundle o hb)
  exact hfold os {} (by decide)

end Ns3.Pmip6
