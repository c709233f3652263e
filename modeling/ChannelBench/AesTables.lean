import Mathlib.Data.Nat.Basic

/-! The tables of `aes_core.c`. Each of the tables `Te0`, …, `Te3` does one row of a column of a round of the
encryption, with the S-box and the product by the matrix in one lookup, and `Td0`, …, `Td3` one of a round of
the decryption. `Te4` and `Td4` hold the S-box and its inverse four times in a word. -/

namespace ChannelBench

def te0 : List (BitVec 32) := [
  0xc66363a5#32, 0xf87c7c84#32, 0xee777799#32, 0xf67b7b8d#32, 0xfff2f20d#32, 0xd66b6bbd#32, 0xde6f6fb1#32,
  0x91c5c554#32, 0x60303050#32, 0x02010103#32, 0xce6767a9#32, 0x562b2b7d#32, 0xe7fefe19#32, 0xb5d7d762#32,
  0x4dababe6#32, 0xec76769a#32, 0x8fcaca45#32, 0x1f82829d#32, 0x89c9c940#32, 0xfa7d7d87#32, 0xeffafa15#32,
  0xb25959eb#32, 0x8e4747c9#32, 0xfbf0f00b#32, 0x41adadec#32, 0xb3d4d467#32, 0x5fa2a2fd#32, 0x45afafea#32,
  0x239c9cbf#32, 0x53a4a4f7#32, 0xe4727296#32, 0x9bc0c05b#32, 0x75b7b7c2#32, 0xe1fdfd1c#32, 0x3d9393ae#32,
  0x4c26266a#32, 0x6c36365a#32, 0x7e3f3f41#32, 0xf5f7f702#32, 0x83cccc4f#32, 0x6834345c#32, 0x51a5a5f4#32,
  0xd1e5e534#32, 0xf9f1f108#32, 0xe2717193#32, 0xabd8d873#32, 0x62313153#32, 0x2a15153f#32, 0x0804040c#32,
  0x95c7c752#32, 0x46232365#32, 0x9dc3c35e#32, 0x30181828#32, 0x379696a1#32, 0x0a05050f#32, 0x2f9a9ab5#32,
  0x0e070709#32, 0x24121236#32, 0x1b80809b#32, 0xdfe2e23d#32, 0xcdebeb26#32, 0x4e272769#32, 0x7fb2b2cd#32,
  0xea75759f#32, 0x1209091b#32, 0x1d83839e#32, 0x582c2c74#32, 0x341a1a2e#32, 0x361b1b2d#32, 0xdc6e6eb2#32,
  0xb45a5aee#32, 0x5ba0a0fb#32, 0xa45252f6#32, 0x763b3b4d#32, 0xb7d6d661#32, 0x7db3b3ce#32, 0x5229297b#32,
  0xdde3e33e#32, 0x5e2f2f71#32, 0x13848497#32, 0xa65353f5#32, 0xb9d1d168#32, 0x00000000#32, 0xc1eded2c#32,
  0x40202060#32, 0xe3fcfc1f#32, 0x79b1b1c8#32, 0xb65b5bed#32, 0xd46a6abe#32, 0x8dcbcb46#32, 0x67bebed9#32,
  0x7239394b#32, 0x944a4ade#32, 0x984c4cd4#32, 0xb05858e8#32, 0x85cfcf4a#32, 0xbbd0d06b#32, 0xc5efef2a#32,
  0x4faaaae5#32, 0xedfbfb16#32, 0x864343c5#32, 0x9a4d4dd7#32, 0x66333355#32, 0x11858594#32, 0x8a4545cf#32,
  0xe9f9f910#32, 0x04020206#32, 0xfe7f7f81#32, 0xa05050f0#32, 0x783c3c44#32, 0x259f9fba#32, 0x4ba8a8e3#32,
  0xa25151f3#32, 0x5da3a3fe#32, 0x804040c0#32, 0x058f8f8a#32, 0x3f9292ad#32, 0x219d9dbc#32, 0x70383848#32,
  0xf1f5f504#32, 0x63bcbcdf#32, 0x77b6b6c1#32, 0xafdada75#32, 0x42212163#32, 0x20101030#32, 0xe5ffff1a#32,
  0xfdf3f30e#32, 0xbfd2d26d#32, 0x81cdcd4c#32, 0x180c0c14#32, 0x26131335#32, 0xc3ecec2f#32, 0xbe5f5fe1#32,
  0x359797a2#32, 0x884444cc#32, 0x2e171739#32, 0x93c4c457#32, 0x55a7a7f2#32, 0xfc7e7e82#32, 0x7a3d3d47#32,
  0xc86464ac#32, 0xba5d5de7#32, 0x3219192b#32, 0xe6737395#32, 0xc06060a0#32, 0x19818198#32, 0x9e4f4fd1#32,
  0xa3dcdc7f#32, 0x44222266#32, 0x542a2a7e#32, 0x3b9090ab#32, 0x0b888883#32, 0x8c4646ca#32, 0xc7eeee29#32,
  0x6bb8b8d3#32, 0x2814143c#32, 0xa7dede79#32, 0xbc5e5ee2#32, 0x160b0b1d#32, 0xaddbdb76#32, 0xdbe0e03b#32,
  0x64323256#32, 0x743a3a4e#32, 0x140a0a1e#32, 0x924949db#32, 0x0c06060a#32, 0x4824246c#32, 0xb85c5ce4#32,
  0x9fc2c25d#32, 0xbdd3d36e#32, 0x43acacef#32, 0xc46262a6#32, 0x399191a8#32, 0x319595a4#32, 0xd3e4e437#32,
  0xf279798b#32, 0xd5e7e732#32, 0x8bc8c843#32, 0x6e373759#32, 0xda6d6db7#32, 0x018d8d8c#32, 0xb1d5d564#32,
  0x9c4e4ed2#32, 0x49a9a9e0#32, 0xd86c6cb4#32, 0xac5656fa#32, 0xf3f4f407#32, 0xcfeaea25#32, 0xca6565af#32,
  0xf47a7a8e#32, 0x47aeaee9#32, 0x10080818#32, 0x6fbabad5#32, 0xf0787888#32, 0x4a25256f#32, 0x5c2e2e72#32,
  0x381c1c24#32, 0x57a6a6f1#32, 0x73b4b4c7#32, 0x97c6c651#32, 0xcbe8e823#32, 0xa1dddd7c#32, 0xe874749c#32,
  0x3e1f1f21#32, 0x964b4bdd#32, 0x61bdbddc#32, 0x0d8b8b86#32, 0x0f8a8a85#32, 0xe0707090#32, 0x7c3e3e42#32,
  0x71b5b5c4#32, 0xcc6666aa#32, 0x904848d8#32, 0x06030305#32, 0xf7f6f601#32, 0x1c0e0e12#32, 0xc26161a3#32,
  0x6a35355f#32, 0xae5757f9#32, 0x69b9b9d0#32, 0x17868691#32, 0x99c1c158#32, 0x3a1d1d27#32, 0x279e9eb9#32,
  0xd9e1e138#32, 0xebf8f813#32, 0x2b9898b3#32, 0x22111133#32, 0xd26969bb#32, 0xa9d9d970#32, 0x078e8e89#32,
  0x339494a7#32, 0x2d9b9bb6#32, 0x3c1e1e22#32, 0x15878792#32, 0xc9e9e920#32, 0x87cece49#32, 0xaa5555ff#32,
  0x50282878#32, 0xa5dfdf7a#32, 0x038c8c8f#32, 0x59a1a1f8#32, 0x09898980#32, 0x1a0d0d17#32, 0x65bfbfda#32,
  0xd7e6e631#32, 0x844242c6#32, 0xd06868b8#32, 0x824141c3#32, 0x299999b0#32, 0x5a2d2d77#32, 0x1e0f0f11#32,
  0x7bb0b0cb#32, 0xa85454fc#32, 0x6dbbbbd6#32, 0x2c16163a#32]

def te1 : List (BitVec 32) := [
  0xa5c66363#32, 0x84f87c7c#32, 0x99ee7777#32, 0x8df67b7b#32, 0x0dfff2f2#32, 0xbdd66b6b#32, 0xb1de6f6f#32,
  0x5491c5c5#32, 0x50603030#32, 0x03020101#32, 0xa9ce6767#32, 0x7d562b2b#32, 0x19e7fefe#32, 0x62b5d7d7#32,
  0xe64dabab#32, 0x9aec7676#32, 0x458fcaca#32, 0x9d1f8282#32, 0x4089c9c9#32, 0x87fa7d7d#32, 0x15effafa#32,
  0xebb25959#32, 0xc98e4747#32, 0x0bfbf0f0#32, 0xec41adad#32, 0x67b3d4d4#32, 0xfd5fa2a2#32, 0xea45afaf#32,
  0xbf239c9c#32, 0xf753a4a4#32, 0x96e47272#32, 0x5b9bc0c0#32, 0xc275b7b7#32, 0x1ce1fdfd#32, 0xae3d9393#32,
  0x6a4c2626#32, 0x5a6c3636#32, 0x417e3f3f#32, 0x02f5f7f7#32, 0x4f83cccc#32, 0x5c683434#32, 0xf451a5a5#32,
  0x34d1e5e5#32, 0x08f9f1f1#32, 0x93e27171#32, 0x73abd8d8#32, 0x53623131#32, 0x3f2a1515#32, 0x0c080404#32,
  0x5295c7c7#32, 0x65462323#32, 0x5e9dc3c3#32, 0x28301818#32, 0xa1379696#32, 0x0f0a0505#32, 0xb52f9a9a#32,
  0x090e0707#32, 0x36241212#32, 0x9b1b8080#32, 0x3ddfe2e2#32, 0x26cdebeb#32, 0x694e2727#32, 0xcd7fb2b2#32,
  0x9fea7575#32, 0x1b120909#32, 0x9e1d8383#32, 0x74582c2c#32, 0x2e341a1a#32, 0x2d361b1b#32, 0xb2dc6e6e#32,
  0xeeb45a5a#32, 0xfb5ba0a0#32, 0xf6a45252#32, 0x4d763b3b#32, 0x61b7d6d6#32, 0xce7db3b3#32, 0x7b522929#32,
  0x3edde3e3#32, 0x715e2f2f#32, 0x97138484#32, 0xf5a65353#32, 0x68b9d1d1#32, 0x00000000#32, 0x2cc1eded#32,
  0x60402020#32, 0x1fe3fcfc#32, 0xc879b1b1#32, 0xedb65b5b#32, 0xbed46a6a#32, 0x468dcbcb#32, 0xd967bebe#32,
  0x4b723939#32, 0xde944a4a#32, 0xd4984c4c#32, 0xe8b05858#32, 0x4a85cfcf#32, 0x6bbbd0d0#32, 0x2ac5efef#32,
  0xe54faaaa#32, 0x16edfbfb#32, 0xc5864343#32, 0xd79a4d4d#32, 0x55663333#32, 0x94118585#32, 0xcf8a4545#32,
  0x10e9f9f9#32, 0x06040202#32, 0x81fe7f7f#32, 0xf0a05050#32, 0x44783c3c#32, 0xba259f9f#32, 0xe34ba8a8#32,
  0xf3a25151#32, 0xfe5da3a3#32, 0xc0804040#32, 0x8a058f8f#32, 0xad3f9292#32, 0xbc219d9d#32, 0x48703838#32,
  0x04f1f5f5#32, 0xdf63bcbc#32, 0xc177b6b6#32, 0x75afdada#32, 0x63422121#32, 0x30201010#32, 0x1ae5ffff#32,
  0x0efdf3f3#32, 0x6dbfd2d2#32, 0x4c81cdcd#32, 0x14180c0c#32, 0x35261313#32, 0x2fc3ecec#32, 0xe1be5f5f#32,
  0xa2359797#32, 0xcc884444#32, 0x392e1717#32, 0x5793c4c4#32, 0xf255a7a7#32, 0x82fc7e7e#32, 0x477a3d3d#32,
  0xacc86464#32, 0xe7ba5d5d#32, 0x2b321919#32, 0x95e67373#32, 0xa0c06060#32, 0x98198181#32, 0xd19e4f4f#32,
  0x7fa3dcdc#32, 0x66442222#32, 0x7e542a2a#32, 0xab3b9090#32, 0x830b8888#32, 0xca8c4646#32, 0x29c7eeee#32,
  0xd36bb8b8#32, 0x3c281414#32, 0x79a7dede#32, 0xe2bc5e5e#32, 0x1d160b0b#32, 0x76addbdb#32, 0x3bdbe0e0#32,
  0x56643232#32, 0x4e743a3a#32, 0x1e140a0a#32, 0xdb924949#32, 0x0a0c0606#32, 0x6c482424#32, 0xe4b85c5c#32,
  0x5d9fc2c2#32, 0x6ebdd3d3#32, 0xef43acac#32, 0xa6c46262#32, 0xa8399191#32, 0xa4319595#32, 0x37d3e4e4#32,
  0x8bf27979#32, 0x32d5e7e7#32, 0x438bc8c8#32, 0x596e3737#32, 0xb7da6d6d#32, 0x8c018d8d#32, 0x64b1d5d5#32,
  0xd29c4e4e#32, 0xe049a9a9#32, 0xb4d86c6c#32, 0xfaac5656#32, 0x07f3f4f4#32, 0x25cfeaea#32, 0xafca6565#32,
  0x8ef47a7a#32, 0xe947aeae#32, 0x18100808#32, 0xd56fbaba#32, 0x88f07878#32, 0x6f4a2525#32, 0x725c2e2e#32,
  0x24381c1c#32, 0xf157a6a6#32, 0xc773b4b4#32, 0x5197c6c6#32, 0x23cbe8e8#32, 0x7ca1dddd#32, 0x9ce87474#32,
  0x213e1f1f#32, 0xdd964b4b#32, 0xdc61bdbd#32, 0x860d8b8b#32, 0x850f8a8a#32, 0x90e07070#32, 0x427c3e3e#32,
  0xc471b5b5#32, 0xaacc6666#32, 0xd8904848#32, 0x05060303#32, 0x01f7f6f6#32, 0x121c0e0e#32, 0xa3c26161#32,
  0x5f6a3535#32, 0xf9ae5757#32, 0xd069b9b9#32, 0x91178686#32, 0x5899c1c1#32, 0x273a1d1d#32, 0xb9279e9e#32,
  0x38d9e1e1#32, 0x13ebf8f8#32, 0xb32b9898#32, 0x33221111#32, 0xbbd26969#32, 0x70a9d9d9#32, 0x89078e8e#32,
  0xa7339494#32, 0xb62d9b9b#32, 0x223c1e1e#32, 0x92158787#32, 0x20c9e9e9#32, 0x4987cece#32, 0xffaa5555#32,
  0x78502828#32, 0x7aa5dfdf#32, 0x8f038c8c#32, 0xf859a1a1#32, 0x80098989#32, 0x171a0d0d#32, 0xda65bfbf#32,
  0x31d7e6e6#32, 0xc6844242#32, 0xb8d06868#32, 0xc3824141#32, 0xb0299999#32, 0x775a2d2d#32, 0x111e0f0f#32,
  0xcb7bb0b0#32, 0xfca85454#32, 0xd66dbbbb#32, 0x3a2c1616#32]

def te2 : List (BitVec 32) := [
  0x63a5c663#32, 0x7c84f87c#32, 0x7799ee77#32, 0x7b8df67b#32, 0xf20dfff2#32, 0x6bbdd66b#32, 0x6fb1de6f#32,
  0xc55491c5#32, 0x30506030#32, 0x01030201#32, 0x67a9ce67#32, 0x2b7d562b#32, 0xfe19e7fe#32, 0xd762b5d7#32,
  0xabe64dab#32, 0x769aec76#32, 0xca458fca#32, 0x829d1f82#32, 0xc94089c9#32, 0x7d87fa7d#32, 0xfa15effa#32,
  0x59ebb259#32, 0x47c98e47#32, 0xf00bfbf0#32, 0xadec41ad#32, 0xd467b3d4#32, 0xa2fd5fa2#32, 0xafea45af#32,
  0x9cbf239c#32, 0xa4f753a4#32, 0x7296e472#32, 0xc05b9bc0#32, 0xb7c275b7#32, 0xfd1ce1fd#32, 0x93ae3d93#32,
  0x266a4c26#32, 0x365a6c36#32, 0x3f417e3f#32, 0xf702f5f7#32, 0xcc4f83cc#32, 0x345c6834#32, 0xa5f451a5#32,
  0xe534d1e5#32, 0xf108f9f1#32, 0x7193e271#32, 0xd873abd8#32, 0x31536231#32, 0x153f2a15#32, 0x040c0804#32,
  0xc75295c7#32, 0x23654623#32, 0xc35e9dc3#32, 0x18283018#32, 0x96a13796#32, 0x050f0a05#32, 0x9ab52f9a#32,
  0x07090e07#32, 0x12362412#32, 0x809b1b80#32, 0xe23ddfe2#32, 0xeb26cdeb#32, 0x27694e27#32, 0xb2cd7fb2#32,
  0x759fea75#32, 0x091b1209#32, 0x839e1d83#32, 0x2c74582c#32, 0x1a2e341a#32, 0x1b2d361b#32, 0x6eb2dc6e#32,
  0x5aeeb45a#32, 0xa0fb5ba0#32, 0x52f6a452#32, 0x3b4d763b#32, 0xd661b7d6#32, 0xb3ce7db3#32, 0x297b5229#32,
  0xe33edde3#32, 0x2f715e2f#32, 0x84971384#32, 0x53f5a653#32, 0xd168b9d1#32, 0x00000000#32, 0xed2cc1ed#32,
  0x20604020#32, 0xfc1fe3fc#32, 0xb1c879b1#32, 0x5bedb65b#32, 0x6abed46a#32, 0xcb468dcb#32, 0xbed967be#32,
  0x394b7239#32, 0x4ade944a#32, 0x4cd4984c#32, 0x58e8b058#32, 0xcf4a85cf#32, 0xd06bbbd0#32, 0xef2ac5ef#32,
  0xaae54faa#32, 0xfb16edfb#32, 0x43c58643#32, 0x4dd79a4d#32, 0x33556633#32, 0x85941185#32, 0x45cf8a45#32,
  0xf910e9f9#32, 0x02060402#32, 0x7f81fe7f#32, 0x50f0a050#32, 0x3c44783c#32, 0x9fba259f#32, 0xa8e34ba8#32,
  0x51f3a251#32, 0xa3fe5da3#32, 0x40c08040#32, 0x8f8a058f#32, 0x92ad3f92#32, 0x9dbc219d#32, 0x38487038#32,
  0xf504f1f5#32, 0xbcdf63bc#32, 0xb6c177b6#32, 0xda75afda#32, 0x21634221#32, 0x10302010#32, 0xff1ae5ff#32,
  0xf30efdf3#32, 0xd26dbfd2#32, 0xcd4c81cd#32, 0x0c14180c#32, 0x13352613#32, 0xec2fc3ec#32, 0x5fe1be5f#32,
  0x97a23597#32, 0x44cc8844#32, 0x17392e17#32, 0xc45793c4#32, 0xa7f255a7#32, 0x7e82fc7e#32, 0x3d477a3d#32,
  0x64acc864#32, 0x5de7ba5d#32, 0x192b3219#32, 0x7395e673#32, 0x60a0c060#32, 0x81981981#32, 0x4fd19e4f#32,
  0xdc7fa3dc#32, 0x22664422#32, 0x2a7e542a#32, 0x90ab3b90#32, 0x88830b88#32, 0x46ca8c46#32, 0xee29c7ee#32,
  0xb8d36bb8#32, 0x143c2814#32, 0xde79a7de#32, 0x5ee2bc5e#32, 0x0b1d160b#32, 0xdb76addb#32, 0xe03bdbe0#32,
  0x32566432#32, 0x3a4e743a#32, 0x0a1e140a#32, 0x49db9249#32, 0x060a0c06#32, 0x246c4824#32, 0x5ce4b85c#32,
  0xc25d9fc2#32, 0xd36ebdd3#32, 0xacef43ac#32, 0x62a6c462#32, 0x91a83991#32, 0x95a43195#32, 0xe437d3e4#32,
  0x798bf279#32, 0xe732d5e7#32, 0xc8438bc8#32, 0x37596e37#32, 0x6db7da6d#32, 0x8d8c018d#32, 0xd564b1d5#32,
  0x4ed29c4e#32, 0xa9e049a9#32, 0x6cb4d86c#32, 0x56faac56#32, 0xf407f3f4#32, 0xea25cfea#32, 0x65afca65#32,
  0x7a8ef47a#32, 0xaee947ae#32, 0x08181008#32, 0xbad56fba#32, 0x7888f078#32, 0x256f4a25#32, 0x2e725c2e#32,
  0x1c24381c#32, 0xa6f157a6#32, 0xb4c773b4#32, 0xc65197c6#32, 0xe823cbe8#32, 0xdd7ca1dd#32, 0x749ce874#32,
  0x1f213e1f#32, 0x4bdd964b#32, 0xbddc61bd#32, 0x8b860d8b#32, 0x8a850f8a#32, 0x7090e070#32, 0x3e427c3e#32,
  0xb5c471b5#32, 0x66aacc66#32, 0x48d89048#32, 0x03050603#32, 0xf601f7f6#32, 0x0e121c0e#32, 0x61a3c261#32,
  0x355f6a35#32, 0x57f9ae57#32, 0xb9d069b9#32, 0x86911786#32, 0xc15899c1#32, 0x1d273a1d#32, 0x9eb9279e#32,
  0xe138d9e1#32, 0xf813ebf8#32, 0x98b32b98#32, 0x11332211#32, 0x69bbd269#32, 0xd970a9d9#32, 0x8e89078e#32,
  0x94a73394#32, 0x9bb62d9b#32, 0x1e223c1e#32, 0x87921587#32, 0xe920c9e9#32, 0xce4987ce#32, 0x55ffaa55#32,
  0x28785028#32, 0xdf7aa5df#32, 0x8c8f038c#32, 0xa1f859a1#32, 0x89800989#32, 0x0d171a0d#32, 0xbfda65bf#32,
  0xe631d7e6#32, 0x42c68442#32, 0x68b8d068#32, 0x41c38241#32, 0x99b02999#32, 0x2d775a2d#32, 0x0f111e0f#32,
  0xb0cb7bb0#32, 0x54fca854#32, 0xbbd66dbb#32, 0x163a2c16#32]

def te3 : List (BitVec 32) := [
  0x6363a5c6#32, 0x7c7c84f8#32, 0x777799ee#32, 0x7b7b8df6#32, 0xf2f20dff#32, 0x6b6bbdd6#32, 0x6f6fb1de#32,
  0xc5c55491#32, 0x30305060#32, 0x01010302#32, 0x6767a9ce#32, 0x2b2b7d56#32, 0xfefe19e7#32, 0xd7d762b5#32,
  0xababe64d#32, 0x76769aec#32, 0xcaca458f#32, 0x82829d1f#32, 0xc9c94089#32, 0x7d7d87fa#32, 0xfafa15ef#32,
  0x5959ebb2#32, 0x4747c98e#32, 0xf0f00bfb#32, 0xadadec41#32, 0xd4d467b3#32, 0xa2a2fd5f#32, 0xafafea45#32,
  0x9c9cbf23#32, 0xa4a4f753#32, 0x727296e4#32, 0xc0c05b9b#32, 0xb7b7c275#32, 0xfdfd1ce1#32, 0x9393ae3d#32,
  0x26266a4c#32, 0x36365a6c#32, 0x3f3f417e#32, 0xf7f702f5#32, 0xcccc4f83#32, 0x34345c68#32, 0xa5a5f451#32,
  0xe5e534d1#32, 0xf1f108f9#32, 0x717193e2#32, 0xd8d873ab#32, 0x31315362#32, 0x15153f2a#32, 0x04040c08#32,
  0xc7c75295#32, 0x23236546#32, 0xc3c35e9d#32, 0x18182830#32, 0x9696a137#32, 0x05050f0a#32, 0x9a9ab52f#32,
  0x0707090e#32, 0x12123624#32, 0x80809b1b#32, 0xe2e23ddf#32, 0xebeb26cd#32, 0x2727694e#32, 0xb2b2cd7f#32,
  0x75759fea#32, 0x09091b12#32, 0x83839e1d#32, 0x2c2c7458#32, 0x1a1a2e34#32, 0x1b1b2d36#32, 0x6e6eb2dc#32,
  0x5a5aeeb4#32, 0xa0a0fb5b#32, 0x5252f6a4#32, 0x3b3b4d76#32, 0xd6d661b7#32, 0xb3b3ce7d#32, 0x29297b52#32,
  0xe3e33edd#32, 0x2f2f715e#32, 0x84849713#32, 0x5353f5a6#32, 0xd1d168b9#32, 0x00000000#32, 0xeded2cc1#32,
  0x20206040#32, 0xfcfc1fe3#32, 0xb1b1c879#32, 0x5b5bedb6#32, 0x6a6abed4#32, 0xcbcb468d#32, 0xbebed967#32,
  0x39394b72#32, 0x4a4ade94#32, 0x4c4cd498#32, 0x5858e8b0#32, 0xcfcf4a85#32, 0xd0d06bbb#32, 0xefef2ac5#32,
  0xaaaae54f#32, 0xfbfb16ed#32, 0x4343c586#32, 0x4d4dd79a#32, 0x33335566#32, 0x85859411#32, 0x4545cf8a#32,
  0xf9f910e9#32, 0x02020604#32, 0x7f7f81fe#32, 0x5050f0a0#32, 0x3c3c4478#32, 0x9f9fba25#32, 0xa8a8e34b#32,
  0x5151f3a2#32, 0xa3a3fe5d#32, 0x4040c080#32, 0x8f8f8a05#32, 0x9292ad3f#32, 0x9d9dbc21#32, 0x38384870#32,
  0xf5f504f1#32, 0xbcbcdf63#32, 0xb6b6c177#32, 0xdada75af#32, 0x21216342#32, 0x10103020#32, 0xffff1ae5#32,
  0xf3f30efd#32, 0xd2d26dbf#32, 0xcdcd4c81#32, 0x0c0c1418#32, 0x13133526#32, 0xecec2fc3#32, 0x5f5fe1be#32,
  0x9797a235#32, 0x4444cc88#32, 0x1717392e#32, 0xc4c45793#32, 0xa7a7f255#32, 0x7e7e82fc#32, 0x3d3d477a#32,
  0x6464acc8#32, 0x5d5de7ba#32, 0x19192b32#32, 0x737395e6#32, 0x6060a0c0#32, 0x81819819#32, 0x4f4fd19e#32,
  0xdcdc7fa3#32, 0x22226644#32, 0x2a2a7e54#32, 0x9090ab3b#32, 0x8888830b#32, 0x4646ca8c#32, 0xeeee29c7#32,
  0xb8b8d36b#32, 0x14143c28#32, 0xdede79a7#32, 0x5e5ee2bc#32, 0x0b0b1d16#32, 0xdbdb76ad#32, 0xe0e03bdb#32,
  0x32325664#32, 0x3a3a4e74#32, 0x0a0a1e14#32, 0x4949db92#32, 0x06060a0c#32, 0x24246c48#32, 0x5c5ce4b8#32,
  0xc2c25d9f#32, 0xd3d36ebd#32, 0xacacef43#32, 0x6262a6c4#32, 0x9191a839#32, 0x9595a431#32, 0xe4e437d3#32,
  0x79798bf2#32, 0xe7e732d5#32, 0xc8c8438b#32, 0x3737596e#32, 0x6d6db7da#32, 0x8d8d8c01#32, 0xd5d564b1#32,
  0x4e4ed29c#32, 0xa9a9e049#32, 0x6c6cb4d8#32, 0x5656faac#32, 0xf4f407f3#32, 0xeaea25cf#32, 0x6565afca#32,
  0x7a7a8ef4#32, 0xaeaee947#32, 0x08081810#32, 0xbabad56f#32, 0x787888f0#32, 0x25256f4a#32, 0x2e2e725c#32,
  0x1c1c2438#32, 0xa6a6f157#32, 0xb4b4c773#32, 0xc6c65197#32, 0xe8e823cb#32, 0xdddd7ca1#32, 0x74749ce8#32,
  0x1f1f213e#32, 0x4b4bdd96#32, 0xbdbddc61#32, 0x8b8b860d#32, 0x8a8a850f#32, 0x707090e0#32, 0x3e3e427c#32,
  0xb5b5c471#32, 0x6666aacc#32, 0x4848d890#32, 0x03030506#32, 0xf6f601f7#32, 0x0e0e121c#32, 0x6161a3c2#32,
  0x35355f6a#32, 0x5757f9ae#32, 0xb9b9d069#32, 0x86869117#32, 0xc1c15899#32, 0x1d1d273a#32, 0x9e9eb927#32,
  0xe1e138d9#32, 0xf8f813eb#32, 0x9898b32b#32, 0x11113322#32, 0x6969bbd2#32, 0xd9d970a9#32, 0x8e8e8907#32,
  0x9494a733#32, 0x9b9bb62d#32, 0x1e1e223c#32, 0x87879215#32, 0xe9e920c9#32, 0xcece4987#32, 0x5555ffaa#32,
  0x28287850#32, 0xdfdf7aa5#32, 0x8c8c8f03#32, 0xa1a1f859#32, 0x89898009#32, 0x0d0d171a#32, 0xbfbfda65#32,
  0xe6e631d7#32, 0x4242c684#32, 0x6868b8d0#32, 0x4141c382#32, 0x9999b029#32, 0x2d2d775a#32, 0x0f0f111e#32,
  0xb0b0cb7b#32, 0x5454fca8#32, 0xbbbbd66d#32, 0x16163a2c#32]

def te4 : List (BitVec 32) := [
  0x63636363#32, 0x7c7c7c7c#32, 0x77777777#32, 0x7b7b7b7b#32, 0xf2f2f2f2#32, 0x6b6b6b6b#32, 0x6f6f6f6f#32,
  0xc5c5c5c5#32, 0x30303030#32, 0x01010101#32, 0x67676767#32, 0x2b2b2b2b#32, 0xfefefefe#32, 0xd7d7d7d7#32,
  0xabababab#32, 0x76767676#32, 0xcacacaca#32, 0x82828282#32, 0xc9c9c9c9#32, 0x7d7d7d7d#32, 0xfafafafa#32,
  0x59595959#32, 0x47474747#32, 0xf0f0f0f0#32, 0xadadadad#32, 0xd4d4d4d4#32, 0xa2a2a2a2#32, 0xafafafaf#32,
  0x9c9c9c9c#32, 0xa4a4a4a4#32, 0x72727272#32, 0xc0c0c0c0#32, 0xb7b7b7b7#32, 0xfdfdfdfd#32, 0x93939393#32,
  0x26262626#32, 0x36363636#32, 0x3f3f3f3f#32, 0xf7f7f7f7#32, 0xcccccccc#32, 0x34343434#32, 0xa5a5a5a5#32,
  0xe5e5e5e5#32, 0xf1f1f1f1#32, 0x71717171#32, 0xd8d8d8d8#32, 0x31313131#32, 0x15151515#32, 0x04040404#32,
  0xc7c7c7c7#32, 0x23232323#32, 0xc3c3c3c3#32, 0x18181818#32, 0x96969696#32, 0x05050505#32, 0x9a9a9a9a#32,
  0x07070707#32, 0x12121212#32, 0x80808080#32, 0xe2e2e2e2#32, 0xebebebeb#32, 0x27272727#32, 0xb2b2b2b2#32,
  0x75757575#32, 0x09090909#32, 0x83838383#32, 0x2c2c2c2c#32, 0x1a1a1a1a#32, 0x1b1b1b1b#32, 0x6e6e6e6e#32,
  0x5a5a5a5a#32, 0xa0a0a0a0#32, 0x52525252#32, 0x3b3b3b3b#32, 0xd6d6d6d6#32, 0xb3b3b3b3#32, 0x29292929#32,
  0xe3e3e3e3#32, 0x2f2f2f2f#32, 0x84848484#32, 0x53535353#32, 0xd1d1d1d1#32, 0x00000000#32, 0xedededed#32,
  0x20202020#32, 0xfcfcfcfc#32, 0xb1b1b1b1#32, 0x5b5b5b5b#32, 0x6a6a6a6a#32, 0xcbcbcbcb#32, 0xbebebebe#32,
  0x39393939#32, 0x4a4a4a4a#32, 0x4c4c4c4c#32, 0x58585858#32, 0xcfcfcfcf#32, 0xd0d0d0d0#32, 0xefefefef#32,
  0xaaaaaaaa#32, 0xfbfbfbfb#32, 0x43434343#32, 0x4d4d4d4d#32, 0x33333333#32, 0x85858585#32, 0x45454545#32,
  0xf9f9f9f9#32, 0x02020202#32, 0x7f7f7f7f#32, 0x50505050#32, 0x3c3c3c3c#32, 0x9f9f9f9f#32, 0xa8a8a8a8#32,
  0x51515151#32, 0xa3a3a3a3#32, 0x40404040#32, 0x8f8f8f8f#32, 0x92929292#32, 0x9d9d9d9d#32, 0x38383838#32,
  0xf5f5f5f5#32, 0xbcbcbcbc#32, 0xb6b6b6b6#32, 0xdadadada#32, 0x21212121#32, 0x10101010#32, 0xffffffff#32,
  0xf3f3f3f3#32, 0xd2d2d2d2#32, 0xcdcdcdcd#32, 0x0c0c0c0c#32, 0x13131313#32, 0xecececec#32, 0x5f5f5f5f#32,
  0x97979797#32, 0x44444444#32, 0x17171717#32, 0xc4c4c4c4#32, 0xa7a7a7a7#32, 0x7e7e7e7e#32, 0x3d3d3d3d#32,
  0x64646464#32, 0x5d5d5d5d#32, 0x19191919#32, 0x73737373#32, 0x60606060#32, 0x81818181#32, 0x4f4f4f4f#32,
  0xdcdcdcdc#32, 0x22222222#32, 0x2a2a2a2a#32, 0x90909090#32, 0x88888888#32, 0x46464646#32, 0xeeeeeeee#32,
  0xb8b8b8b8#32, 0x14141414#32, 0xdededede#32, 0x5e5e5e5e#32, 0x0b0b0b0b#32, 0xdbdbdbdb#32, 0xe0e0e0e0#32,
  0x32323232#32, 0x3a3a3a3a#32, 0x0a0a0a0a#32, 0x49494949#32, 0x06060606#32, 0x24242424#32, 0x5c5c5c5c#32,
  0xc2c2c2c2#32, 0xd3d3d3d3#32, 0xacacacac#32, 0x62626262#32, 0x91919191#32, 0x95959595#32, 0xe4e4e4e4#32,
  0x79797979#32, 0xe7e7e7e7#32, 0xc8c8c8c8#32, 0x37373737#32, 0x6d6d6d6d#32, 0x8d8d8d8d#32, 0xd5d5d5d5#32,
  0x4e4e4e4e#32, 0xa9a9a9a9#32, 0x6c6c6c6c#32, 0x56565656#32, 0xf4f4f4f4#32, 0xeaeaeaea#32, 0x65656565#32,
  0x7a7a7a7a#32, 0xaeaeaeae#32, 0x08080808#32, 0xbabababa#32, 0x78787878#32, 0x25252525#32, 0x2e2e2e2e#32,
  0x1c1c1c1c#32, 0xa6a6a6a6#32, 0xb4b4b4b4#32, 0xc6c6c6c6#32, 0xe8e8e8e8#32, 0xdddddddd#32, 0x74747474#32,
  0x1f1f1f1f#32, 0x4b4b4b4b#32, 0xbdbdbdbd#32, 0x8b8b8b8b#32, 0x8a8a8a8a#32, 0x70707070#32, 0x3e3e3e3e#32,
  0xb5b5b5b5#32, 0x66666666#32, 0x48484848#32, 0x03030303#32, 0xf6f6f6f6#32, 0x0e0e0e0e#32, 0x61616161#32,
  0x35353535#32, 0x57575757#32, 0xb9b9b9b9#32, 0x86868686#32, 0xc1c1c1c1#32, 0x1d1d1d1d#32, 0x9e9e9e9e#32,
  0xe1e1e1e1#32, 0xf8f8f8f8#32, 0x98989898#32, 0x11111111#32, 0x69696969#32, 0xd9d9d9d9#32, 0x8e8e8e8e#32,
  0x94949494#32, 0x9b9b9b9b#32, 0x1e1e1e1e#32, 0x87878787#32, 0xe9e9e9e9#32, 0xcececece#32, 0x55555555#32,
  0x28282828#32, 0xdfdfdfdf#32, 0x8c8c8c8c#32, 0xa1a1a1a1#32, 0x89898989#32, 0x0d0d0d0d#32, 0xbfbfbfbf#32,
  0xe6e6e6e6#32, 0x42424242#32, 0x68686868#32, 0x41414141#32, 0x99999999#32, 0x2d2d2d2d#32, 0x0f0f0f0f#32,
  0xb0b0b0b0#32, 0x54545454#32, 0xbbbbbbbb#32, 0x16161616#32]

def td0 : List (BitVec 32) := [
  0x51f4a750#32, 0x7e416553#32, 0x1a17a4c3#32, 0x3a275e96#32, 0x3bab6bcb#32, 0x1f9d45f1#32, 0xacfa58ab#32,
  0x4be30393#32, 0x2030fa55#32, 0xad766df6#32, 0x88cc7691#32, 0xf5024c25#32, 0x4fe5d7fc#32, 0xc52acbd7#32,
  0x26354480#32, 0xb562a38f#32, 0xdeb15a49#32, 0x25ba1b67#32, 0x45ea0e98#32, 0x5dfec0e1#32, 0xc32f7502#32,
  0x814cf012#32, 0x8d4697a3#32, 0x6bd3f9c6#32, 0x038f5fe7#32, 0x15929c95#32, 0xbf6d7aeb#32, 0x955259da#32,
  0xd4be832d#32, 0x587421d3#32, 0x49e06929#32, 0x8ec9c844#32, 0x75c2896a#32, 0xf48e7978#32, 0x99583e6b#32,
  0x27b971dd#32, 0xbee14fb6#32, 0xf088ad17#32, 0xc920ac66#32, 0x7dce3ab4#32, 0x63df4a18#32, 0xe51a3182#32,
  0x97513360#32, 0x62537f45#32, 0xb16477e0#32, 0xbb6bae84#32, 0xfe81a01c#32, 0xf9082b94#32, 0x70486858#32,
  0x8f45fd19#32, 0x94de6c87#32, 0x527bf8b7#32, 0xab73d323#32, 0x724b02e2#32, 0xe31f8f57#32, 0x6655ab2a#32,
  0xb2eb2807#32, 0x2fb5c203#32, 0x86c57b9a#32, 0xd33708a5#32, 0x302887f2#32, 0x23bfa5b2#32, 0x02036aba#32,
  0xed16825c#32, 0x8acf1c2b#32, 0xa779b492#32, 0xf307f2f0#32, 0x4e69e2a1#32, 0x65daf4cd#32, 0x0605bed5#32,
  0xd134621f#32, 0xc4a6fe8a#32, 0x342e539d#32, 0xa2f355a0#32, 0x058ae132#32, 0xa4f6eb75#32, 0x0b83ec39#32,
  0x4060efaa#32, 0x5e719f06#32, 0xbd6e1051#32, 0x3e218af9#32, 0x96dd063d#32, 0xdd3e05ae#32, 0x4de6bd46#32,
  0x91548db5#32, 0x71c45d05#32, 0x0406d46f#32, 0x605015ff#32, 0x1998fb24#32, 0xd6bde997#32, 0x894043cc#32,
  0x67d99e77#32, 0xb0e842bd#32, 0x07898b88#32, 0xe7195b38#32, 0x79c8eedb#32, 0xa17c0a47#32, 0x7c420fe9#32,
  0xf8841ec9#32, 0x00000000#32, 0x09808683#32, 0x322bed48#32, 0x1e1170ac#32, 0x6c5a724e#32, 0xfd0efffb#32,
  0x0f853856#32, 0x3daed51e#32, 0x362d3927#32, 0x0a0fd964#32, 0x685ca621#32, 0x9b5b54d1#32, 0x24362e3a#32,
  0x0c0a67b1#32, 0x9357e70f#32, 0xb4ee96d2#32, 0x1b9b919e#32, 0x80c0c54f#32, 0x61dc20a2#32, 0x5a774b69#32,
  0x1c121a16#32, 0xe293ba0a#32, 0xc0a02ae5#32, 0x3c22e043#32, 0x121b171d#32, 0x0e090d0b#32, 0xf28bc7ad#32,
  0x2db6a8b9#32, 0x141ea9c8#32, 0x57f11985#32, 0xaf75074c#32, 0xee99ddbb#32, 0xa37f60fd#32, 0xf701269f#32,
  0x5c72f5bc#32, 0x44663bc5#32, 0x5bfb7e34#32, 0x8b432976#32, 0xcb23c6dc#32, 0xb6edfc68#32, 0xb8e4f163#32,
  0xd731dcca#32, 0x42638510#32, 0x13972240#32, 0x84c61120#32, 0x854a247d#32, 0xd2bb3df8#32, 0xaef93211#32,
  0xc729a16d#32, 0x1d9e2f4b#32, 0xdcb230f3#32, 0x0d8652ec#32, 0x77c1e3d0#32, 0x2bb3166c#32, 0xa970b999#32,
  0x119448fa#32, 0x47e96422#32, 0xa8fc8cc4#32, 0xa0f03f1a#32, 0x567d2cd8#32, 0x223390ef#32, 0x87494ec7#32,
  0xd938d1c1#32, 0x8ccaa2fe#32, 0x98d40b36#32, 0xa6f581cf#32, 0xa57ade28#32, 0xdab78e26#32, 0x3fadbfa4#32,
  0x2c3a9de4#32, 0x5078920d#32, 0x6a5fcc9b#32, 0x547e4662#32, 0xf68d13c2#32, 0x90d8b8e8#32, 0x2e39f75e#32,
  0x82c3aff5#32, 0x9f5d80be#32, 0x69d0937c#32, 0x6fd52da9#32, 0xcf2512b3#32, 0xc8ac993b#32, 0x10187da7#32,
  0xe89c636e#32, 0xdb3bbb7b#32, 0xcd267809#32, 0x6e5918f4#32, 0xec9ab701#32, 0x834f9aa8#32, 0xe6956e65#32,
  0xaaffe67e#32, 0x21bccf08#32, 0xef15e8e6#32, 0xbae79bd9#32, 0x4a6f36ce#32, 0xea9f09d4#32, 0x29b07cd6#32,
  0x31a4b2af#32, 0x2a3f2331#32, 0xc6a59430#32, 0x35a266c0#32, 0x744ebc37#32, 0xfc82caa6#32, 0xe090d0b0#32,
  0x33a7d815#32, 0xf104984a#32, 0x41ecdaf7#32, 0x7fcd500e#32, 0x1791f62f#32, 0x764dd68d#32, 0x43efb04d#32,
  0xccaa4d54#32, 0xe49604df#32, 0x9ed1b5e3#32, 0x4c6a881b#32, 0xc12c1fb8#32, 0x4665517f#32, 0x9d5eea04#32,
  0x018c355d#32, 0xfa877473#32, 0xfb0b412e#32, 0xb3671d5a#32, 0x92dbd252#32, 0xe9105633#32, 0x6dd64713#32,
  0x9ad7618c#32, 0x37a10c7a#32, 0x59f8148e#32, 0xeb133c89#32, 0xcea927ee#32, 0xb761c935#32, 0xe11ce5ed#32,
  0x7a47b13c#32, 0x9cd2df59#32, 0x55f2733f#32, 0x1814ce79#32, 0x73c737bf#32, 0x53f7cdea#32, 0x5ffdaa5b#32,
  0xdf3d6f14#32, 0x7844db86#32, 0xcaaff381#32, 0xb968c43e#32, 0x3824342c#32, 0xc2a3405f#32, 0x161dc372#32,
  0xbce2250c#32, 0x283c498b#32, 0xff0d9541#32, 0x39a80171#32, 0x080cb3de#32, 0xd8b4e49c#32, 0x6456c190#32,
  0x7bcb8461#32, 0xd532b670#32, 0x486c5c74#32, 0xd0b85742#32]

def td1 : List (BitVec 32) := [
  0x5051f4a7#32, 0x537e4165#32, 0xc31a17a4#32, 0x963a275e#32, 0xcb3bab6b#32, 0xf11f9d45#32, 0xabacfa58#32,
  0x934be303#32, 0x552030fa#32, 0xf6ad766d#32, 0x9188cc76#32, 0x25f5024c#32, 0xfc4fe5d7#32, 0xd7c52acb#32,
  0x80263544#32, 0x8fb562a3#32, 0x49deb15a#32, 0x6725ba1b#32, 0x9845ea0e#32, 0xe15dfec0#32, 0x02c32f75#32,
  0x12814cf0#32, 0xa38d4697#32, 0xc66bd3f9#32, 0xe7038f5f#32, 0x9515929c#32, 0xebbf6d7a#32, 0xda955259#32,
  0x2dd4be83#32, 0xd3587421#32, 0x2949e069#32, 0x448ec9c8#32, 0x6a75c289#32, 0x78f48e79#32, 0x6b99583e#32,
  0xdd27b971#32, 0xb6bee14f#32, 0x17f088ad#32, 0x66c920ac#32, 0xb47dce3a#32, 0x1863df4a#32, 0x82e51a31#32,
  0x60975133#32, 0x4562537f#32, 0xe0b16477#32, 0x84bb6bae#32, 0x1cfe81a0#32, 0x94f9082b#32, 0x58704868#32,
  0x198f45fd#32, 0x8794de6c#32, 0xb7527bf8#32, 0x23ab73d3#32, 0xe2724b02#32, 0x57e31f8f#32, 0x2a6655ab#32,
  0x07b2eb28#32, 0x032fb5c2#32, 0x9a86c57b#32, 0xa5d33708#32, 0xf2302887#32, 0xb223bfa5#32, 0xba02036a#32,
  0x5ced1682#32, 0x2b8acf1c#32, 0x92a779b4#32, 0xf0f307f2#32, 0xa14e69e2#32, 0xcd65daf4#32, 0xd50605be#32,
  0x1fd13462#32, 0x8ac4a6fe#32, 0x9d342e53#32, 0xa0a2f355#32, 0x32058ae1#32, 0x75a4f6eb#32, 0x390b83ec#32,
  0xaa4060ef#32, 0x065e719f#32, 0x51bd6e10#32, 0xf93e218a#32, 0x3d96dd06#32, 0xaedd3e05#32, 0x464de6bd#32,
  0xb591548d#32, 0x0571c45d#32, 0x6f0406d4#32, 0xff605015#32, 0x241998fb#32, 0x97d6bde9#32, 0xcc894043#32,
  0x7767d99e#32, 0xbdb0e842#32, 0x8807898b#32, 0x38e7195b#32, 0xdb79c8ee#32, 0x47a17c0a#32, 0xe97c420f#32,
  0xc9f8841e#32, 0x00000000#32, 0x83098086#32, 0x48322bed#32, 0xac1e1170#32, 0x4e6c5a72#32, 0xfbfd0eff#32,
  0x560f8538#32, 0x1e3daed5#32, 0x27362d39#32, 0x640a0fd9#32, 0x21685ca6#32, 0xd19b5b54#32, 0x3a24362e#32,
  0xb10c0a67#32, 0x0f9357e7#32, 0xd2b4ee96#32, 0x9e1b9b91#32, 0x4f80c0c5#32, 0xa261dc20#32, 0x695a774b#32,
  0x161c121a#32, 0x0ae293ba#32, 0xe5c0a02a#32, 0x433c22e0#32, 0x1d121b17#32, 0x0b0e090d#32, 0xadf28bc7#32,
  0xb92db6a8#32, 0xc8141ea9#32, 0x8557f119#32, 0x4caf7507#32, 0xbbee99dd#32, 0xfda37f60#32, 0x9ff70126#32,
  0xbc5c72f5#32, 0xc544663b#32, 0x345bfb7e#32, 0x768b4329#32, 0xdccb23c6#32, 0x68b6edfc#32, 0x63b8e4f1#32,
  0xcad731dc#32, 0x10426385#32, 0x40139722#32, 0x2084c611#32, 0x7d854a24#32, 0xf8d2bb3d#32, 0x11aef932#32,
  0x6dc729a1#32, 0x4b1d9e2f#32, 0xf3dcb230#32, 0xec0d8652#32, 0xd077c1e3#32, 0x6c2bb316#32, 0x99a970b9#32,
  0xfa119448#32, 0x2247e964#32, 0xc4a8fc8c#32, 0x1aa0f03f#32, 0xd8567d2c#32, 0xef223390#32, 0xc787494e#32,
  0xc1d938d1#32, 0xfe8ccaa2#32, 0x3698d40b#32, 0xcfa6f581#32, 0x28a57ade#32, 0x26dab78e#32, 0xa43fadbf#32,
  0xe42c3a9d#32, 0x0d507892#32, 0x9b6a5fcc#32, 0x62547e46#32, 0xc2f68d13#32, 0xe890d8b8#32, 0x5e2e39f7#32,
  0xf582c3af#32, 0xbe9f5d80#32, 0x7c69d093#32, 0xa96fd52d#32, 0xb3cf2512#32, 0x3bc8ac99#32, 0xa710187d#32,
  0x6ee89c63#32, 0x7bdb3bbb#32, 0x09cd2678#32, 0xf46e5918#32, 0x01ec9ab7#32, 0xa8834f9a#32, 0x65e6956e#32,
  0x7eaaffe6#32, 0x0821bccf#32, 0xe6ef15e8#32, 0xd9bae79b#32, 0xce4a6f36#32, 0xd4ea9f09#32, 0xd629b07c#32,
  0xaf31a4b2#32, 0x312a3f23#32, 0x30c6a594#32, 0xc035a266#32, 0x37744ebc#32, 0xa6fc82ca#32, 0xb0e090d0#32,
  0x1533a7d8#32, 0x4af10498#32, 0xf741ecda#32, 0x0e7fcd50#32, 0x2f1791f6#32, 0x8d764dd6#32, 0x4d43efb0#32,
  0x54ccaa4d#32, 0xdfe49604#32, 0xe39ed1b5#32, 0x1b4c6a88#32, 0xb8c12c1f#32, 0x7f466551#32, 0x049d5eea#32,
  0x5d018c35#32, 0x73fa8774#32, 0x2efb0b41#32, 0x5ab3671d#32, 0x5292dbd2#32, 0x33e91056#32, 0x136dd647#32,
  0x8c9ad761#32, 0x7a37a10c#32, 0x8e59f814#32, 0x89eb133c#32, 0xeecea927#32, 0x35b761c9#32, 0xede11ce5#32,
  0x3c7a47b1#32, 0x599cd2df#32, 0x3f55f273#32, 0x791814ce#32, 0xbf73c737#32, 0xea53f7cd#32, 0x5b5ffdaa#32,
  0x14df3d6f#32, 0x867844db#32, 0x81caaff3#32, 0x3eb968c4#32, 0x2c382434#32, 0x5fc2a340#32, 0x72161dc3#32,
  0x0cbce225#32, 0x8b283c49#32, 0x41ff0d95#32, 0x7139a801#32, 0xde080cb3#32, 0x9cd8b4e4#32, 0x906456c1#32,
  0x617bcb84#32, 0x70d532b6#32, 0x74486c5c#32, 0x42d0b857#32]

def td2 : List (BitVec 32) := [
  0xa75051f4#32, 0x65537e41#32, 0xa4c31a17#32, 0x5e963a27#32, 0x6bcb3bab#32, 0x45f11f9d#32, 0x58abacfa#32,
  0x03934be3#32, 0xfa552030#32, 0x6df6ad76#32, 0x769188cc#32, 0x4c25f502#32, 0xd7fc4fe5#32, 0xcbd7c52a#32,
  0x44802635#32, 0xa38fb562#32, 0x5a49deb1#32, 0x1b6725ba#32, 0x0e9845ea#32, 0xc0e15dfe#32, 0x7502c32f#32,
  0xf012814c#32, 0x97a38d46#32, 0xf9c66bd3#32, 0x5fe7038f#32, 0x9c951592#32, 0x7aebbf6d#32, 0x59da9552#32,
  0x832dd4be#32, 0x21d35874#32, 0x692949e0#32, 0xc8448ec9#32, 0x896a75c2#32, 0x7978f48e#32, 0x3e6b9958#32,
  0x71dd27b9#32, 0x4fb6bee1#32, 0xad17f088#32, 0xac66c920#32, 0x3ab47dce#32, 0x4a1863df#32, 0x3182e51a#32,
  0x33609751#32, 0x7f456253#32, 0x77e0b164#32, 0xae84bb6b#32, 0xa01cfe81#32, 0x2b94f908#32, 0x68587048#32,
  0xfd198f45#32, 0x6c8794de#32, 0xf8b7527b#32, 0xd323ab73#32, 0x02e2724b#32, 0x8f57e31f#32, 0xab2a6655#32,
  0x2807b2eb#32, 0xc2032fb5#32, 0x7b9a86c5#32, 0x08a5d337#32, 0x87f23028#32, 0xa5b223bf#32, 0x6aba0203#32,
  0x825ced16#32, 0x1c2b8acf#32, 0xb492a779#32, 0xf2f0f307#32, 0xe2a14e69#32, 0xf4cd65da#32, 0xbed50605#32,
  0x621fd134#32, 0xfe8ac4a6#32, 0x539d342e#32, 0x55a0a2f3#32, 0xe132058a#32, 0xeb75a4f6#32, 0xec390b83#32,
  0xefaa4060#32, 0x9f065e71#32, 0x1051bd6e#32, 0x8af93e21#32, 0x063d96dd#32, 0x05aedd3e#32, 0xbd464de6#32,
  0x8db59154#32, 0x5d0571c4#32, 0xd46f0406#32, 0x15ff6050#32, 0xfb241998#32, 0xe997d6bd#32, 0x43cc8940#32,
  0x9e7767d9#32, 0x42bdb0e8#32, 0x8b880789#32, 0x5b38e719#32, 0xeedb79c8#32, 0x0a47a17c#32, 0x0fe97c42#32,
  0x1ec9f884#32, 0x00000000#32, 0x86830980#32, 0xed48322b#32, 0x70ac1e11#32, 0x724e6c5a#32, 0xfffbfd0e#32,
  0x38560f85#32, 0xd51e3dae#32, 0x3927362d#32, 0xd9640a0f#32, 0xa621685c#32, 0x54d19b5b#32, 0x2e3a2436#32,
  0x67b10c0a#32, 0xe70f9357#32, 0x96d2b4ee#32, 0x919e1b9b#32, 0xc54f80c0#32, 0x20a261dc#32, 0x4b695a77#32,
  0x1a161c12#32, 0xba0ae293#32, 0x2ae5c0a0#32, 0xe0433c22#32, 0x171d121b#32, 0x0d0b0e09#32, 0xc7adf28b#32,
  0xa8b92db6#32, 0xa9c8141e#32, 0x198557f1#32, 0x074caf75#32, 0xddbbee99#32, 0x60fda37f#32, 0x269ff701#32,
  0xf5bc5c72#32, 0x3bc54466#32, 0x7e345bfb#32, 0x29768b43#32, 0xc6dccb23#32, 0xfc68b6ed#32, 0xf163b8e4#32,
  0xdccad731#32, 0x85104263#32, 0x22401397#32, 0x112084c6#32, 0x247d854a#32, 0x3df8d2bb#32, 0x3211aef9#32,
  0xa16dc729#32, 0x2f4b1d9e#32, 0x30f3dcb2#32, 0x52ec0d86#32, 0xe3d077c1#32, 0x166c2bb3#32, 0xb999a970#32,
  0x48fa1194#32, 0x642247e9#32, 0x8cc4a8fc#32, 0x3f1aa0f0#32, 0x2cd8567d#32, 0x90ef2233#32, 0x4ec78749#32,
  0xd1c1d938#32, 0xa2fe8cca#32, 0x0b3698d4#32, 0x81cfa6f5#32, 0xde28a57a#32, 0x8e26dab7#32, 0xbfa43fad#32,
  0x9de42c3a#32, 0x920d5078#32, 0xcc9b6a5f#32, 0x4662547e#32, 0x13c2f68d#32, 0xb8e890d8#32, 0xf75e2e39#32,
  0xaff582c3#32, 0x80be9f5d#32, 0x937c69d0#32, 0x2da96fd5#32, 0x12b3cf25#32, 0x993bc8ac#32, 0x7da71018#32,
  0x636ee89c#32, 0xbb7bdb3b#32, 0x7809cd26#32, 0x18f46e59#32, 0xb701ec9a#32, 0x9aa8834f#32, 0x6e65e695#32,
  0xe67eaaff#32, 0xcf0821bc#32, 0xe8e6ef15#32, 0x9bd9bae7#32, 0x36ce4a6f#32, 0x09d4ea9f#32, 0x7cd629b0#32,
  0xb2af31a4#32, 0x23312a3f#32, 0x9430c6a5#32, 0x66c035a2#32, 0xbc37744e#32, 0xcaa6fc82#32, 0xd0b0e090#32,
  0xd81533a7#32, 0x984af104#32, 0xdaf741ec#32, 0x500e7fcd#32, 0xf62f1791#32, 0xd68d764d#32, 0xb04d43ef#32,
  0x4d54ccaa#32, 0x04dfe496#32, 0xb5e39ed1#32, 0x881b4c6a#32, 0x1fb8c12c#32, 0x517f4665#32, 0xea049d5e#32,
  0x355d018c#32, 0x7473fa87#32, 0x412efb0b#32, 0x1d5ab367#32, 0xd25292db#32, 0x5633e910#32, 0x47136dd6#32,
  0x618c9ad7#32, 0x0c7a37a1#32, 0x148e59f8#32, 0x3c89eb13#32, 0x27eecea9#32, 0xc935b761#32, 0xe5ede11c#32,
  0xb13c7a47#32, 0xdf599cd2#32, 0x733f55f2#32, 0xce791814#32, 0x37bf73c7#32, 0xcdea53f7#32, 0xaa5b5ffd#32,
  0x6f14df3d#32, 0xdb867844#32, 0xf381caaf#32, 0xc43eb968#32, 0x342c3824#32, 0x405fc2a3#32, 0xc372161d#32,
  0x250cbce2#32, 0x498b283c#32, 0x9541ff0d#32, 0x017139a8#32, 0xb3de080c#32, 0xe49cd8b4#32, 0xc1906456#32,
  0x84617bcb#32, 0xb670d532#32, 0x5c74486c#32, 0x5742d0b8#32]

def td3 : List (BitVec 32) := [
  0xf4a75051#32, 0x4165537e#32, 0x17a4c31a#32, 0x275e963a#32, 0xab6bcb3b#32, 0x9d45f11f#32, 0xfa58abac#32,
  0xe303934b#32, 0x30fa5520#32, 0x766df6ad#32, 0xcc769188#32, 0x024c25f5#32, 0xe5d7fc4f#32, 0x2acbd7c5#32,
  0x35448026#32, 0x62a38fb5#32, 0xb15a49de#32, 0xba1b6725#32, 0xea0e9845#32, 0xfec0e15d#32, 0x2f7502c3#32,
  0x4cf01281#32, 0x4697a38d#32, 0xd3f9c66b#32, 0x8f5fe703#32, 0x929c9515#32, 0x6d7aebbf#32, 0x5259da95#32,
  0xbe832dd4#32, 0x7421d358#32, 0xe0692949#32, 0xc9c8448e#32, 0xc2896a75#32, 0x8e7978f4#32, 0x583e6b99#32,
  0xb971dd27#32, 0xe14fb6be#32, 0x88ad17f0#32, 0x20ac66c9#32, 0xce3ab47d#32, 0xdf4a1863#32, 0x1a3182e5#32,
  0x51336097#32, 0x537f4562#32, 0x6477e0b1#32, 0x6bae84bb#32, 0x81a01cfe#32, 0x082b94f9#32, 0x48685870#32,
  0x45fd198f#32, 0xde6c8794#32, 0x7bf8b752#32, 0x73d323ab#32, 0x4b02e272#32, 0x1f8f57e3#32, 0x55ab2a66#32,
  0xeb2807b2#32, 0xb5c2032f#32, 0xc57b9a86#32, 0x3708a5d3#32, 0x2887f230#32, 0xbfa5b223#32, 0x036aba02#32,
  0x16825ced#32, 0xcf1c2b8a#32, 0x79b492a7#32, 0x07f2f0f3#32, 0x69e2a14e#32, 0xdaf4cd65#32, 0x05bed506#32,
  0x34621fd1#32, 0xa6fe8ac4#32, 0x2e539d34#32, 0xf355a0a2#32, 0x8ae13205#32, 0xf6eb75a4#32, 0x83ec390b#32,
  0x60efaa40#32, 0x719f065e#32, 0x6e1051bd#32, 0x218af93e#32, 0xdd063d96#32, 0x3e05aedd#32, 0xe6bd464d#32,
  0x548db591#32, 0xc45d0571#32, 0x06d46f04#32, 0x5015ff60#32, 0x98fb2419#32, 0xbde997d6#32, 0x4043cc89#32,
  0xd99e7767#32, 0xe842bdb0#32, 0x898b8807#32, 0x195b38e7#32, 0xc8eedb79#32, 0x7c0a47a1#32, 0x420fe97c#32,
  0x841ec9f8#32, 0x00000000#32, 0x80868309#32, 0x2bed4832#32, 0x1170ac1e#32, 0x5a724e6c#32, 0x0efffbfd#32,
  0x8538560f#32, 0xaed51e3d#32, 0x2d392736#32, 0x0fd9640a#32, 0x5ca62168#32, 0x5b54d19b#32, 0x362e3a24#32,
  0x0a67b10c#32, 0x57e70f93#32, 0xee96d2b4#32, 0x9b919e1b#32, 0xc0c54f80#32, 0xdc20a261#32, 0x774b695a#32,
  0x121a161c#32, 0x93ba0ae2#32, 0xa02ae5c0#32, 0x22e0433c#32, 0x1b171d12#32, 0x090d0b0e#32, 0x8bc7adf2#32,
  0xb6a8b92d#32, 0x1ea9c814#32, 0xf1198557#32, 0x75074caf#32, 0x99ddbbee#32, 0x7f60fda3#32, 0x01269ff7#32,
  0x72f5bc5c#32, 0x663bc544#32, 0xfb7e345b#32, 0x4329768b#32, 0x23c6dccb#32, 0xedfc68b6#32, 0xe4f163b8#32,
  0x31dccad7#32, 0x63851042#32, 0x97224013#32, 0xc6112084#32, 0x4a247d85#32, 0xbb3df8d2#32, 0xf93211ae#32,
  0x29a16dc7#32, 0x9e2f4b1d#32, 0xb230f3dc#32, 0x8652ec0d#32, 0xc1e3d077#32, 0xb3166c2b#32, 0x70b999a9#32,
  0x9448fa11#32, 0xe9642247#32, 0xfc8cc4a8#32, 0xf03f1aa0#32, 0x7d2cd856#32, 0x3390ef22#32, 0x494ec787#32,
  0x38d1c1d9#32, 0xcaa2fe8c#32, 0xd40b3698#32, 0xf581cfa6#32, 0x7ade28a5#32, 0xb78e26da#32, 0xadbfa43f#32,
  0x3a9de42c#32, 0x78920d50#32, 0x5fcc9b6a#32, 0x7e466254#32, 0x8d13c2f6#32, 0xd8b8e890#32, 0x39f75e2e#32,
  0xc3aff582#32, 0x5d80be9f#32, 0xd0937c69#32, 0xd52da96f#32, 0x2512b3cf#32, 0xac993bc8#32, 0x187da710#32,
  0x9c636ee8#32, 0x3bbb7bdb#32, 0x267809cd#32, 0x5918f46e#32, 0x9ab701ec#32, 0x4f9aa883#32, 0x956e65e6#32,
  0xffe67eaa#32, 0xbccf0821#32, 0x15e8e6ef#32, 0xe79bd9ba#32, 0x6f36ce4a#32, 0x9f09d4ea#32, 0xb07cd629#32,
  0xa4b2af31#32, 0x3f23312a#32, 0xa59430c6#32, 0xa266c035#32, 0x4ebc3774#32, 0x82caa6fc#32, 0x90d0b0e0#32,
  0xa7d81533#32, 0x04984af1#32, 0xecdaf741#32, 0xcd500e7f#32, 0x91f62f17#32, 0x4dd68d76#32, 0xefb04d43#32,
  0xaa4d54cc#32, 0x9604dfe4#32, 0xd1b5e39e#32, 0x6a881b4c#32, 0x2c1fb8c1#32, 0x65517f46#32, 0x5eea049d#32,
  0x8c355d01#32, 0x877473fa#32, 0x0b412efb#32, 0x671d5ab3#32, 0xdbd25292#32, 0x105633e9#32, 0xd647136d#32,
  0xd7618c9a#32, 0xa10c7a37#32, 0xf8148e59#32, 0x133c89eb#32, 0xa927eece#32, 0x61c935b7#32, 0x1ce5ede1#32,
  0x47b13c7a#32, 0xd2df599c#32, 0xf2733f55#32, 0x14ce7918#32, 0xc737bf73#32, 0xf7cdea53#32, 0xfdaa5b5f#32,
  0x3d6f14df#32, 0x44db8678#32, 0xaff381ca#32, 0x68c43eb9#32, 0x24342c38#32, 0xa3405fc2#32, 0x1dc37216#32,
  0xe2250cbc#32, 0x3c498b28#32, 0x0d9541ff#32, 0xa8017139#32, 0x0cb3de08#32, 0xb4e49cd8#32, 0x56c19064#32,
  0xcb84617b#32, 0x32b670d5#32, 0x6c5c7448#32, 0xb85742d0#32]

def td4 : List (BitVec 32) := [
  0x52525252#32, 0x09090909#32, 0x6a6a6a6a#32, 0xd5d5d5d5#32, 0x30303030#32, 0x36363636#32, 0xa5a5a5a5#32,
  0x38383838#32, 0xbfbfbfbf#32, 0x40404040#32, 0xa3a3a3a3#32, 0x9e9e9e9e#32, 0x81818181#32, 0xf3f3f3f3#32,
  0xd7d7d7d7#32, 0xfbfbfbfb#32, 0x7c7c7c7c#32, 0xe3e3e3e3#32, 0x39393939#32, 0x82828282#32, 0x9b9b9b9b#32,
  0x2f2f2f2f#32, 0xffffffff#32, 0x87878787#32, 0x34343434#32, 0x8e8e8e8e#32, 0x43434343#32, 0x44444444#32,
  0xc4c4c4c4#32, 0xdededede#32, 0xe9e9e9e9#32, 0xcbcbcbcb#32, 0x54545454#32, 0x7b7b7b7b#32, 0x94949494#32,
  0x32323232#32, 0xa6a6a6a6#32, 0xc2c2c2c2#32, 0x23232323#32, 0x3d3d3d3d#32, 0xeeeeeeee#32, 0x4c4c4c4c#32,
  0x95959595#32, 0x0b0b0b0b#32, 0x42424242#32, 0xfafafafa#32, 0xc3c3c3c3#32, 0x4e4e4e4e#32, 0x08080808#32,
  0x2e2e2e2e#32, 0xa1a1a1a1#32, 0x66666666#32, 0x28282828#32, 0xd9d9d9d9#32, 0x24242424#32, 0xb2b2b2b2#32,
  0x76767676#32, 0x5b5b5b5b#32, 0xa2a2a2a2#32, 0x49494949#32, 0x6d6d6d6d#32, 0x8b8b8b8b#32, 0xd1d1d1d1#32,
  0x25252525#32, 0x72727272#32, 0xf8f8f8f8#32, 0xf6f6f6f6#32, 0x64646464#32, 0x86868686#32, 0x68686868#32,
  0x98989898#32, 0x16161616#32, 0xd4d4d4d4#32, 0xa4a4a4a4#32, 0x5c5c5c5c#32, 0xcccccccc#32, 0x5d5d5d5d#32,
  0x65656565#32, 0xb6b6b6b6#32, 0x92929292#32, 0x6c6c6c6c#32, 0x70707070#32, 0x48484848#32, 0x50505050#32,
  0xfdfdfdfd#32, 0xedededed#32, 0xb9b9b9b9#32, 0xdadadada#32, 0x5e5e5e5e#32, 0x15151515#32, 0x46464646#32,
  0x57575757#32, 0xa7a7a7a7#32, 0x8d8d8d8d#32, 0x9d9d9d9d#32, 0x84848484#32, 0x90909090#32, 0xd8d8d8d8#32,
  0xabababab#32, 0x00000000#32, 0x8c8c8c8c#32, 0xbcbcbcbc#32, 0xd3d3d3d3#32, 0x0a0a0a0a#32, 0xf7f7f7f7#32,
  0xe4e4e4e4#32, 0x58585858#32, 0x05050505#32, 0xb8b8b8b8#32, 0xb3b3b3b3#32, 0x45454545#32, 0x06060606#32,
  0xd0d0d0d0#32, 0x2c2c2c2c#32, 0x1e1e1e1e#32, 0x8f8f8f8f#32, 0xcacacaca#32, 0x3f3f3f3f#32, 0x0f0f0f0f#32,
  0x02020202#32, 0xc1c1c1c1#32, 0xafafafaf#32, 0xbdbdbdbd#32, 0x03030303#32, 0x01010101#32, 0x13131313#32,
  0x8a8a8a8a#32, 0x6b6b6b6b#32, 0x3a3a3a3a#32, 0x91919191#32, 0x11111111#32, 0x41414141#32, 0x4f4f4f4f#32,
  0x67676767#32, 0xdcdcdcdc#32, 0xeaeaeaea#32, 0x97979797#32, 0xf2f2f2f2#32, 0xcfcfcfcf#32, 0xcececece#32,
  0xf0f0f0f0#32, 0xb4b4b4b4#32, 0xe6e6e6e6#32, 0x73737373#32, 0x96969696#32, 0xacacacac#32, 0x74747474#32,
  0x22222222#32, 0xe7e7e7e7#32, 0xadadadad#32, 0x35353535#32, 0x85858585#32, 0xe2e2e2e2#32, 0xf9f9f9f9#32,
  0x37373737#32, 0xe8e8e8e8#32, 0x1c1c1c1c#32, 0x75757575#32, 0xdfdfdfdf#32, 0x6e6e6e6e#32, 0x47474747#32,
  0xf1f1f1f1#32, 0x1a1a1a1a#32, 0x71717171#32, 0x1d1d1d1d#32, 0x29292929#32, 0xc5c5c5c5#32, 0x89898989#32,
  0x6f6f6f6f#32, 0xb7b7b7b7#32, 0x62626262#32, 0x0e0e0e0e#32, 0xaaaaaaaa#32, 0x18181818#32, 0xbebebebe#32,
  0x1b1b1b1b#32, 0xfcfcfcfc#32, 0x56565656#32, 0x3e3e3e3e#32, 0x4b4b4b4b#32, 0xc6c6c6c6#32, 0xd2d2d2d2#32,
  0x79797979#32, 0x20202020#32, 0x9a9a9a9a#32, 0xdbdbdbdb#32, 0xc0c0c0c0#32, 0xfefefefe#32, 0x78787878#32,
  0xcdcdcdcd#32, 0x5a5a5a5a#32, 0xf4f4f4f4#32, 0x1f1f1f1f#32, 0xdddddddd#32, 0xa8a8a8a8#32, 0x33333333#32,
  0x88888888#32, 0x07070707#32, 0xc7c7c7c7#32, 0x31313131#32, 0xb1b1b1b1#32, 0x12121212#32, 0x10101010#32,
  0x59595959#32, 0x27272727#32, 0x80808080#32, 0xecececec#32, 0x5f5f5f5f#32, 0x60606060#32, 0x51515151#32,
  0x7f7f7f7f#32, 0xa9a9a9a9#32, 0x19191919#32, 0xb5b5b5b5#32, 0x4a4a4a4a#32, 0x0d0d0d0d#32, 0x2d2d2d2d#32,
  0xe5e5e5e5#32, 0x7a7a7a7a#32, 0x9f9f9f9f#32, 0x93939393#32, 0xc9c9c9c9#32, 0x9c9c9c9c#32, 0xefefefef#32,
  0xa0a0a0a0#32, 0xe0e0e0e0#32, 0x3b3b3b3b#32, 0x4d4d4d4d#32, 0xaeaeaeae#32, 0x2a2a2a2a#32, 0xf5f5f5f5#32,
  0xb0b0b0b0#32, 0xc8c8c8c8#32, 0xebebebeb#32, 0xbbbbbbbb#32, 0x3c3c3c3c#32, 0x83838383#32, 0x53535353#32,
  0x99999999#32, 0x61616161#32, 0x17171717#32, 0x2b2b2b2b#32, 0x04040404#32, 0x7e7e7e7e#32, 0xbabababa#32,
  0x77777777#32, 0xd6d6d6d6#32, 0x26262626#32, 0xe1e1e1e1#32, 0x69696969#32, 0x14141414#32, 0x63636363#32,
  0x55555555#32, 0x21212121#32, 0x0c0c0c0c#32, 0x7d7d7d7d#32]

def rcon : List (BitVec 32) := [
  0x01000000#32, 0x02000000#32, 0x04000000#32, 0x08000000#32, 0x10000000#32, 0x20000000#32, 0x40000000#32,
  0x80000000#32, 0x1b000000#32, 0x36000000#32]

end ChannelBench
