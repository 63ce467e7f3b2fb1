import PrologText.Text.Category

/-!
# Where the general category changes

The boundaries of the general categories beyond ASCII, in ascending order: each entry is the first
code point of a run and the category of the whole run, which goes up to the next entry.
-/

namespace PrologText.Category

def from0080 : List (Nat × Category) := [
  (0x80, .control), (0xA0, .separator), (0xA1, .punctuation), (0xA2, .symbol),
  (0xA7, .punctuation), (0xA8, .symbol), (0xAA, .letter), (0xAB, .punctuation), (0xAC, .symbol),
  (0xAD, .other), (0xAE, .symbol), (0xB2, .number), (0xB4, .symbol), (0xB5, .lower),
  (0xB6, .punctuation), (0xB8, .symbol), (0xB9, .number), (0xBA, .letter), (0xBB, .punctuation),
  (0xBC, .number), (0xBF, .punctuation), (0xC0, .upper), (0xD7, .symbol), (0xD8, .upper),
  (0xDF, .lower), (0xF7, .symbol), (0xF8, .lower), (0x100, .upper), (0x101, .lower),
  (0x102, .upper), (0x103, .lower), (0x104, .upper), (0x105, .lower), (0x106, .upper),
  (0x107, .lower), (0x108, .upper), (0x109, .lower), (0x10A, .upper), (0x10B, .lower),
  (0x10C, .upper), (0x10D, .lower), (0x10E, .upper), (0x10F, .lower), (0x110, .upper),
  (0x111, .lower), (0x112, .upper), (0x113, .lower), (0x114, .upper), (0x115, .lower),
  (0x116, .upper), (0x117, .lower), (0x118, .upper), (0x119, .lower), (0x11A, .upper),
  (0x11B, .lower), (0x11C, .upper), (0x11D, .lower), (0x11E, .upper), (0x11F, .lower),
  (0x120, .upper), (0x121, .lower), (0x122, .upper), (0x123, .lower), (0x124, .upper),
  (0x125, .lower), (0x126, .upper), (0x127, .lower), (0x128, .upper), (0x129, .lower),
  (0x12A, .upper), (0x12B, .lower), (0x12C, .upper), (0x12D, .lower), (0x12E, .upper),
  (0x12F, .lower), (0x130, .upper), (0x131, .lower), (0x132, .upper), (0x133, .lower),
  (0x134, .upper), (0x135, .lower), (0x136, .upper), (0x137, .lower), (0x139, .upper),
  (0x13A, .lower), (0x13B, .upper), (0x13C, .lower), (0x13D, .upper), (0x13E, .lower),
  (0x13F, .upper), (0x140, .lower), (0x141, .upper), (0x142, .lower), (0x143, .upper),
  (0x144, .lower), (0x145, .upper), (0x146, .lower), (0x147, .upper), (0x148, .lower),
  (0x14A, .upper), (0x14B, .lower), (0x14C, .upper), (0x14D, .lower), (0x14E, .upper),
  (0x14F, .lower), (0x150, .upper), (0x151, .lower), (0x152, .upper), (0x153, .lower),
  (0x154, .upper), (0x155, .lower), (0x156, .upper), (0x157, .lower), (0x158, .upper),
  (0x159, .lower), (0x15A, .upper), (0x15B, .lower), (0x15C, .upper), (0x15D, .lower),
  (0x15E, .upper), (0x15F, .lower), (0x160, .upper), (0x161, .lower), (0x162, .upper),
  (0x163, .lower), (0x164, .upper), (0x165, .lower), (0x166, .upper), (0x167, .lower),
  (0x168, .upper), (0x169, .lower), (0x16A, .upper), (0x16B, .lower), (0x16C, .upper),
  (0x16D, .lower), (0x16E, .upper), (0x16F, .lower), (0x170, .upper), (0x171, .lower),
  (0x172, .upper), (0x173, .lower), (0x174, .upper), (0x175, .lower), (0x176, .upper),
  (0x177, .lower), (0x178, .upper), (0x17A, .lower), (0x17B, .upper), (0x17C, .lower),
  (0x17D, .upper), (0x17E, .lower), (0x181, .upper), (0x183, .lower), (0x184, .upper),
  (0x185, .lower), (0x186, .upper), (0x188, .lower), (0x189, .upper), (0x18C, .lower),
  (0x18E, .upper), (0x192, .lower), (0x193, .upper), (0x195, .lower), (0x196, .upper),
  (0x199, .lower), (0x19C, .upper), (0x19E, .lower), (0x19F, .upper), (0x1A1, .lower),
  (0x1A2, .upper), (0x1A3, .lower), (0x1A4, .upper), (0x1A5, .lower), (0x1A6, .upper),
  (0x1A8, .lower), (0x1A9, .upper), (0x1AA, .lower), (0x1AC, .upper), (0x1AD, .lower),
  (0x1AE, .upper), (0x1B0, .lower), (0x1B1, .upper), (0x1B4, .lower), (0x1B5, .upper),
  (0x1B6, .lower), (0x1B7, .upper), (0x1B9, .lower), (0x1BB, .letter), (0x1BC, .upper),
  (0x1BD, .lower), (0x1C0, .letter), (0x1C4, .upper), (0x1C5, .letter), (0x1C6, .lower),
  (0x1C7, .upper), (0x1C8, .letter), (0x1C9, .lower), (0x1CA, .upper), (0x1CB, .letter),
  (0x1CC, .lower), (0x1CD, .upper), (0x1CE, .lower), (0x1CF, .upper), (0x1D0, .lower),
  (0x1D1, .upper), (0x1D2, .lower), (0x1D3, .upper), (0x1D4, .lower), (0x1D5, .upper),
  (0x1D6, .lower), (0x1D7, .upper), (0x1D8, .lower), (0x1D9, .upper), (0x1DA, .lower),
  (0x1DB, .upper), (0x1DC, .lower), (0x1DE, .upper), (0x1DF, .lower), (0x1E0, .upper),
  (0x1E1, .lower), (0x1E2, .upper), (0x1E3, .lower), (0x1E4, .upper), (0x1E5, .lower),
  (0x1E6, .upper), (0x1E7, .lower), (0x1E8, .upper), (0x1E9, .lower), (0x1EA, .upper),
  (0x1EB, .lower), (0x1EC, .upper), (0x1ED, .lower), (0x1EE, .upper), (0x1EF, .lower),
  (0x1F1, .upper), (0x1F2, .letter), (0x1F3, .lower), (0x1F4, .upper), (0x1F5, .lower),
  (0x1F6, .upper), (0x1F9, .lower), (0x1FA, .upper), (0x1FB, .lower), (0x1FC, .upper),
  (0x1FD, .lower), (0x1FE, .upper), (0x1FF, .lower), (0x200, .upper), (0x201, .lower),
  (0x202, .upper), (0x203, .lower), (0x204, .upper), (0x205, .lower), (0x206, .upper),
  (0x207, .lower), (0x208, .upper), (0x209, .lower), (0x20A, .upper), (0x20B, .lower),
  (0x20C, .upper), (0x20D, .lower), (0x20E, .upper), (0x20F, .lower), (0x210, .upper),
  (0x211, .lower), (0x212, .upper), (0x213, .lower), (0x214, .upper), (0x215, .lower),
  (0x216, .upper), (0x217, .lower), (0x218, .upper), (0x219, .lower), (0x21A, .upper),
  (0x21B, .lower), (0x21C, .upper), (0x21D, .lower), (0x21E, .upper), (0x21F, .lower),
  (0x220, .upper), (0x221, .lower), (0x222, .upper), (0x223, .lower), (0x224, .upper),
  (0x225, .lower), (0x226, .upper), (0x227, .lower), (0x228, .upper), (0x229, .lower),
  (0x22A, .upper), (0x22B, .lower), (0x22C, .upper), (0x22D, .lower), (0x22E, .upper),
  (0x22F, .lower), (0x230, .upper), (0x231, .lower), (0x232, .upper), (0x233, .lower),
  (0x23A, .upper), (0x23C, .lower), (0x23D, .upper), (0x23F, .lower), (0x241, .upper),
  (0x242, .lower), (0x243, .upper), (0x247, .lower), (0x248, .upper), (0x249, .lower),
  (0x24A, .upper), (0x24B, .lower), (0x24C, .upper), (0x24D, .lower), (0x24E, .upper),
  (0x24F, .lower), (0x294, .letter), (0x296, .lower), (0x2B0, .letter), (0x2C2, .symbol),
  (0x2C6, .letter), (0x2D2, .symbol), (0x2E0, .letter), (0x2E5, .symbol), (0x2EC, .letter),
  (0x2ED, .symbol), (0x2EE, .letter), (0x2EF, .symbol), (0x300, .mark), (0x370, .upper),
  (0x371, .lower), (0x372, .upper), (0x373, .lower), (0x374, .letter), (0x375, .symbol),
  (0x376, .upper), (0x377, .lower), (0x378, .other), (0x37A, .letter), (0x37B, .lower),
  (0x37E, .punctuation), (0x37F, .upper), (0x380, .other), (0x384, .symbol), (0x386, .upper),
  (0x387, .punctuation), (0x388, .upper), (0x38B, .other), (0x38C, .upper), (0x38D, .other),
  (0x38E, .upper), (0x390, .lower), (0x391, .upper), (0x3A2, .other), (0x3A3, .upper),
  (0x3AC, .lower), (0x3CF, .upper), (0x3D0, .lower), (0x3D2, .upper), (0x3D5, .lower),
  (0x3D8, .upper), (0x3D9, .lower), (0x3DA, .upper), (0x3DB, .lower), (0x3DC, .upper),
  (0x3DD, .lower), (0x3DE, .upper), (0x3DF, .lower), (0x3E0, .upper), (0x3E1, .lower),
  (0x3E2, .upper), (0x3E3, .lower), (0x3E4, .upper), (0x3E5, .lower), (0x3E6, .upper),
  (0x3E7, .lower), (0x3E8, .upper), (0x3E9, .lower), (0x3EA, .upper), (0x3EB, .lower),
  (0x3EC, .upper), (0x3ED, .lower), (0x3EE, .upper), (0x3EF, .lower), (0x3F4, .upper),
  (0x3F5, .lower), (0x3F6, .symbol), (0x3F7, .upper), (0x3F8, .lower), (0x3F9, .upper),
  (0x3FB, .lower), (0x3FD, .upper)]

def from0400 : List (Nat × Category) := [
  (0x430, .lower), (0x460, .upper), (0x461, .lower), (0x462, .upper), (0x463, .lower),
  (0x464, .upper), (0x465, .lower), (0x466, .upper), (0x467, .lower), (0x468, .upper),
  (0x469, .lower), (0x46A, .upper), (0x46B, .lower), (0x46C, .upper), (0x46D, .lower),
  (0x46E, .upper), (0x46F, .lower), (0x470, .upper), (0x471, .lower), (0x472, .upper),
  (0x473, .lower), (0x474, .upper), (0x475, .lower), (0x476, .upper), (0x477, .lower),
  (0x478, .upper), (0x479, .lower), (0x47A, .upper), (0x47B, .lower), (0x47C, .upper),
  (0x47D, .lower), (0x47E, .upper), (0x47F, .lower), (0x480, .upper), (0x481, .lower),
  (0x482, .symbol), (0x483, .mark), (0x48A, .upper), (0x48B, .lower), (0x48C, .upper),
  (0x48D, .lower), (0x48E, .upper), (0x48F, .lower), (0x490, .upper), (0x491, .lower),
  (0x492, .upper), (0x493, .lower), (0x494, .upper), (0x495, .lower), (0x496, .upper),
  (0x497, .lower), (0x498, .upper), (0x499, .lower), (0x49A, .upper), (0x49B, .lower),
  (0x49C, .upper), (0x49D, .lower), (0x49E, .upper), (0x49F, .lower), (0x4A0, .upper),
  (0x4A1, .lower), (0x4A2, .upper), (0x4A3, .lower), (0x4A4, .upper), (0x4A5, .lower),
  (0x4A6, .upper), (0x4A7, .lower), (0x4A8, .upper), (0x4A9, .lower), (0x4AA, .upper),
  (0x4AB, .lower), (0x4AC, .upper), (0x4AD, .lower), (0x4AE, .upper), (0x4AF, .lower),
  (0x4B0, .upper), (0x4B1, .lower), (0x4B2, .upper), (0x4B3, .lower), (0x4B4, .upper),
  (0x4B5, .lower), (0x4B6, .upper), (0x4B7, .lower), (0x4B8, .upper), (0x4B9, .lower),
  (0x4BA, .upper), (0x4BB, .lower), (0x4BC, .upper), (0x4BD, .lower), (0x4BE, .upper),
  (0x4BF, .lower), (0x4C0, .upper), (0x4C2, .lower), (0x4C3, .upper), (0x4C4, .lower),
  (0x4C5, .upper), (0x4C6, .lower), (0x4C7, .upper), (0x4C8, .lower), (0x4C9, .upper),
  (0x4CA, .lower), (0x4CB, .upper), (0x4CC, .lower), (0x4CD, .upper), (0x4CE, .lower),
  (0x4D0, .upper), (0x4D1, .lower), (0x4D2, .upper), (0x4D3, .lower), (0x4D4, .upper),
  (0x4D5, .lower), (0x4D6, .upper), (0x4D7, .lower), (0x4D8, .upper), (0x4D9, .lower),
  (0x4DA, .upper), (0x4DB, .lower), (0x4DC, .upper), (0x4DD, .lower), (0x4DE, .upper),
  (0x4DF, .lower), (0x4E0, .upper), (0x4E1, .lower), (0x4E2, .upper), (0x4E3, .lower),
  (0x4E4, .upper), (0x4E5, .lower), (0x4E6, .upper), (0x4E7, .lower), (0x4E8, .upper),
  (0x4E9, .lower), (0x4EA, .upper), (0x4EB, .lower), (0x4EC, .upper), (0x4ED, .lower),
  (0x4EE, .upper), (0x4EF, .lower), (0x4F0, .upper), (0x4F1, .lower), (0x4F2, .upper),
  (0x4F3, .lower), (0x4F4, .upper), (0x4F5, .lower), (0x4F6, .upper), (0x4F7, .lower),
  (0x4F8, .upper), (0x4F9, .lower), (0x4FA, .upper), (0x4FB, .lower), (0x4FC, .upper),
  (0x4FD, .lower), (0x4FE, .upper), (0x4FF, .lower), (0x500, .upper), (0x501, .lower),
  (0x502, .upper), (0x503, .lower), (0x504, .upper), (0x505, .lower), (0x506, .upper),
  (0x507, .lower), (0x508, .upper), (0x509, .lower), (0x50A, .upper), (0x50B, .lower),
  (0x50C, .upper), (0x50D, .lower), (0x50E, .upper), (0x50F, .lower), (0x510, .upper),
  (0x511, .lower), (0x512, .upper), (0x513, .lower), (0x514, .upper), (0x515, .lower),
  (0x516, .upper), (0x517, .lower), (0x518, .upper), (0x519, .lower), (0x51A, .upper),
  (0x51B, .lower), (0x51C, .upper), (0x51D, .lower), (0x51E, .upper), (0x51F, .lower),
  (0x520, .upper), (0x521, .lower), (0x522, .upper), (0x523, .lower), (0x524, .upper),
  (0x525, .lower), (0x526, .upper), (0x527, .lower), (0x528, .upper), (0x529, .lower),
  (0x52A, .upper), (0x52B, .lower), (0x52C, .upper), (0x52D, .lower), (0x52E, .upper),
  (0x52F, .lower), (0x530, .other), (0x531, .upper), (0x557, .other), (0x559, .letter),
  (0x55A, .punctuation), (0x560, .lower), (0x589, .punctuation), (0x58B, .other), (0x58D, .symbol),
  (0x590, .other), (0x591, .mark), (0x5BE, .punctuation), (0x5BF, .mark), (0x5C0, .punctuation),
  (0x5C1, .mark), (0x5C3, .punctuation), (0x5C4, .mark), (0x5C6, .punctuation), (0x5C7, .mark),
  (0x5C8, .other), (0x5D0, .letter), (0x5EB, .other), (0x5EF, .letter), (0x5F3, .punctuation),
  (0x5F5, .other), (0x606, .symbol), (0x609, .punctuation), (0x60B, .symbol),
  (0x60C, .punctuation), (0x60E, .symbol), (0x610, .mark), (0x61B, .punctuation), (0x61C, .other),
  (0x61D, .punctuation), (0x620, .letter), (0x64B, .mark), (0x660, .digit), (0x66A, .punctuation),
  (0x66E, .letter), (0x670, .mark), (0x671, .letter), (0x6D4, .punctuation), (0x6D5, .letter),
  (0x6D6, .mark), (0x6DD, .other), (0x6DE, .symbol), (0x6DF, .mark), (0x6E5, .letter),
  (0x6E7, .mark), (0x6E9, .symbol), (0x6EA, .mark), (0x6EE, .letter), (0x6F0, .digit),
  (0x6FA, .letter), (0x6FD, .symbol), (0x6FF, .letter), (0x700, .punctuation), (0x70E, .other),
  (0x710, .letter), (0x711, .mark), (0x712, .letter), (0x730, .mark), (0x74B, .other),
  (0x74D, .letter), (0x7A6, .mark), (0x7B1, .letter), (0x7B2, .other), (0x7C0, .digit),
  (0x7CA, .letter), (0x7EB, .mark), (0x7F4, .letter), (0x7F6, .symbol), (0x7F7, .punctuation),
  (0x7FA, .letter), (0x7FB, .other), (0x7FD, .mark), (0x7FE, .symbol), (0x800, .letter),
  (0x816, .mark), (0x81A, .letter), (0x81B, .mark), (0x824, .letter), (0x825, .mark),
  (0x828, .letter), (0x829, .mark), (0x82E, .other), (0x830, .punctuation), (0x83F, .other),
  (0x840, .letter), (0x859, .mark), (0x85C, .other), (0x85E, .punctuation), (0x85F, .other),
  (0x860, .letter), (0x86B, .other), (0x870, .letter), (0x888, .symbol), (0x889, .letter),
  (0x890, .other), (0x897, .mark), (0x8A0, .letter), (0x8CA, .mark), (0x8E2, .other),
  (0x8E3, .mark)]

def from0900 : List (Nat × Category) := [
  (0x904, .letter), (0x93A, .mark), (0x93D, .letter), (0x93E, .mark), (0x950, .letter),
  (0x951, .mark), (0x958, .letter), (0x962, .mark), (0x964, .punctuation), (0x966, .digit),
  (0x970, .punctuation), (0x971, .letter), (0x981, .mark), (0x984, .other), (0x985, .letter),
  (0x98D, .other), (0x98F, .letter), (0x991, .other), (0x993, .letter), (0x9A9, .other),
  (0x9AA, .letter), (0x9B1, .other), (0x9B2, .letter), (0x9B3, .other), (0x9B6, .letter),
  (0x9BA, .other), (0x9BC, .mark), (0x9BD, .letter), (0x9BE, .mark), (0x9C5, .other),
  (0x9C7, .mark), (0x9C9, .other), (0x9CB, .mark), (0x9CE, .letter), (0x9CF, .other),
  (0x9D7, .mark), (0x9D8, .other), (0x9DC, .letter), (0x9DE, .other), (0x9DF, .letter),
  (0x9E2, .mark), (0x9E4, .other), (0x9E6, .digit), (0x9F0, .letter), (0x9F2, .symbol),
  (0x9F4, .number), (0x9FA, .symbol), (0x9FC, .letter), (0x9FD, .punctuation), (0x9FE, .mark),
  (0x9FF, .other), (0xA01, .mark), (0xA04, .other), (0xA05, .letter), (0xA0B, .other),
  (0xA0F, .letter), (0xA11, .other), (0xA13, .letter), (0xA29, .other), (0xA2A, .letter),
  (0xA31, .other), (0xA32, .letter), (0xA34, .other), (0xA35, .letter), (0xA37, .other),
  (0xA38, .letter), (0xA3A, .other), (0xA3C, .mark), (0xA3D, .other), (0xA3E, .mark),
  (0xA43, .other), (0xA47, .mark), (0xA49, .other), (0xA4B, .mark), (0xA4E, .other),
  (0xA51, .mark), (0xA52, .other), (0xA59, .letter), (0xA5D, .other), (0xA5E, .letter),
  (0xA5F, .other), (0xA66, .digit), (0xA70, .mark), (0xA72, .letter), (0xA75, .mark),
  (0xA76, .punctuation), (0xA77, .other), (0xA81, .mark), (0xA84, .other), (0xA85, .letter),
  (0xA8E, .other), (0xA8F, .letter), (0xA92, .other), (0xA93, .letter), (0xAA9, .other),
  (0xAAA, .letter), (0xAB1, .other), (0xAB2, .letter), (0xAB4, .other), (0xAB5, .letter),
  (0xABA, .other), (0xABC, .mark), (0xABD, .letter), (0xABE, .mark), (0xAC6, .other),
  (0xAC7, .mark), (0xACA, .other), (0xACB, .mark), (0xACE, .other), (0xAD0, .letter),
  (0xAD1, .other), (0xAE0, .letter), (0xAE2, .mark), (0xAE4, .other), (0xAE6, .digit),
  (0xAF0, .punctuation), (0xAF1, .symbol), (0xAF2, .other), (0xAF9, .letter), (0xAFA, .mark),
  (0xB00, .other), (0xB01, .mark), (0xB04, .other), (0xB05, .letter), (0xB0D, .other),
  (0xB0F, .letter), (0xB11, .other), (0xB13, .letter), (0xB29, .other), (0xB2A, .letter),
  (0xB31, .other), (0xB32, .letter), (0xB34, .other), (0xB35, .letter), (0xB3A, .other),
  (0xB3C, .mark), (0xB3D, .letter), (0xB3E, .mark), (0xB45, .other), (0xB47, .mark),
  (0xB49, .other), (0xB4B, .mark), (0xB4E, .other), (0xB55, .mark), (0xB58, .other),
  (0xB5C, .letter), (0xB5E, .other), (0xB5F, .letter), (0xB62, .mark), (0xB64, .other),
  (0xB66, .digit), (0xB70, .symbol), (0xB71, .letter), (0xB72, .number), (0xB78, .other),
  (0xB82, .mark), (0xB83, .letter), (0xB84, .other), (0xB85, .letter), (0xB8B, .other),
  (0xB8E, .letter), (0xB91, .other), (0xB92, .letter), (0xB96, .other), (0xB99, .letter),
  (0xB9B, .other), (0xB9C, .letter), (0xB9D, .other), (0xB9E, .letter), (0xBA0, .other),
  (0xBA3, .letter), (0xBA5, .other), (0xBA8, .letter), (0xBAB, .other), (0xBAE, .letter),
  (0xBBA, .other), (0xBBE, .mark), (0xBC3, .other), (0xBC6, .mark), (0xBC9, .other),
  (0xBCA, .mark), (0xBCE, .other), (0xBD0, .letter), (0xBD1, .other), (0xBD7, .mark),
  (0xBD8, .other), (0xBE6, .digit), (0xBF0, .number), (0xBF3, .symbol), (0xBFB, .other),
  (0xC00, .mark), (0xC05, .letter), (0xC0D, .other), (0xC0E, .letter), (0xC11, .other),
  (0xC12, .letter), (0xC29, .other), (0xC2A, .letter), (0xC3A, .other), (0xC3C, .mark),
  (0xC3D, .letter), (0xC3E, .mark), (0xC45, .other), (0xC46, .mark), (0xC49, .other),
  (0xC4A, .mark), (0xC4E, .other), (0xC55, .mark), (0xC57, .other), (0xC58, .letter),
  (0xC5B, .other), (0xC5C, .letter), (0xC5E, .other), (0xC60, .letter), (0xC62, .mark),
  (0xC64, .other), (0xC66, .digit), (0xC70, .other), (0xC77, .punctuation), (0xC78, .number),
  (0xC7F, .symbol), (0xC80, .letter), (0xC81, .mark), (0xC84, .punctuation), (0xC85, .letter),
  (0xC8D, .other), (0xC8E, .letter), (0xC91, .other), (0xC92, .letter), (0xCA9, .other),
  (0xCAA, .letter), (0xCB4, .other), (0xCB5, .letter), (0xCBA, .other), (0xCBC, .mark),
  (0xCBD, .letter), (0xCBE, .mark), (0xCC5, .other), (0xCC6, .mark), (0xCC9, .other),
  (0xCCA, .mark), (0xCCE, .other), (0xCD5, .mark), (0xCD7, .other), (0xCDC, .letter),
  (0xCDF, .other), (0xCE0, .letter), (0xCE2, .mark), (0xCE4, .other), (0xCE6, .digit),
  (0xCF0, .other), (0xCF1, .letter), (0xCF3, .mark), (0xCF4, .other), (0xD00, .mark),
  (0xD04, .letter), (0xD0D, .other), (0xD0E, .letter), (0xD11, .other), (0xD12, .letter),
  (0xD3B, .mark), (0xD3D, .letter), (0xD3E, .mark), (0xD45, .other), (0xD46, .mark),
  (0xD49, .other), (0xD4A, .mark), (0xD4E, .letter), (0xD4F, .symbol), (0xD50, .other),
  (0xD54, .letter), (0xD57, .mark), (0xD58, .number), (0xD5F, .letter), (0xD62, .mark),
  (0xD64, .other), (0xD66, .digit), (0xD70, .number), (0xD79, .symbol), (0xD7A, .letter),
  (0xD80, .other), (0xD81, .mark), (0xD84, .other), (0xD85, .letter), (0xD97, .other),
  (0xD9A, .letter), (0xDB2, .other), (0xDB3, .letter), (0xDBC, .other), (0xDBD, .letter),
  (0xDBE, .other), (0xDC0, .letter), (0xDC7, .other), (0xDCA, .mark), (0xDCB, .other),
  (0xDCF, .mark), (0xDD5, .other), (0xDD6, .mark), (0xDD7, .other), (0xDD8, .mark),
  (0xDE0, .other), (0xDE6, .digit), (0xDF0, .other), (0xDF2, .mark), (0xDF4, .punctuation),
  (0xDF5, .other)]

def from0E00 : List (Nat × Category) := [
  (0xE01, .letter), (0xE31, .mark), (0xE32, .letter), (0xE34, .mark), (0xE3B, .other),
  (0xE3F, .symbol), (0xE40, .letter), (0xE47, .mark), (0xE4F, .punctuation), (0xE50, .digit),
  (0xE5A, .punctuation), (0xE5C, .other), (0xE81, .letter), (0xE83, .other), (0xE84, .letter),
  (0xE85, .other), (0xE86, .letter), (0xE8B, .other), (0xE8C, .letter), (0xEA4, .other),
  (0xEA5, .letter), (0xEA6, .other), (0xEA7, .letter), (0xEB1, .mark), (0xEB2, .letter),
  (0xEB4, .mark), (0xEBD, .letter), (0xEBE, .other), (0xEC0, .letter), (0xEC5, .other),
  (0xEC6, .letter), (0xEC7, .other), (0xEC8, .mark), (0xECF, .other), (0xED0, .digit),
  (0xEDA, .other), (0xEDC, .letter), (0xEE0, .other), (0xF00, .letter), (0xF01, .symbol),
  (0xF04, .punctuation), (0xF13, .symbol), (0xF14, .punctuation), (0xF15, .symbol), (0xF18, .mark),
  (0xF1A, .symbol), (0xF20, .digit), (0xF2A, .number), (0xF34, .symbol), (0xF35, .mark),
  (0xF36, .symbol), (0xF37, .mark), (0xF38, .symbol), (0xF39, .mark), (0xF3A, .punctuation),
  (0xF3E, .mark), (0xF40, .letter), (0xF48, .other), (0xF49, .letter), (0xF6D, .other),
  (0xF71, .mark), (0xF85, .punctuation), (0xF86, .mark), (0xF88, .letter), (0xF8D, .mark),
  (0xF98, .other), (0xF99, .mark), (0xFBD, .other), (0xFBE, .symbol), (0xFC6, .mark),
  (0xFC7, .symbol), (0xFCD, .other), (0xFCE, .symbol), (0xFD0, .punctuation), (0xFD5, .symbol),
  (0xFD9, .punctuation), (0xFDB, .other), (0x1000, .letter), (0x102B, .mark), (0x103F, .letter),
  (0x1040, .digit), (0x104A, .punctuation), (0x1050, .letter), (0x1056, .mark), (0x105A, .letter),
  (0x105E, .mark), (0x1061, .letter), (0x1062, .mark), (0x1065, .letter), (0x1067, .mark),
  (0x106E, .letter), (0x1071, .mark), (0x1075, .letter), (0x1082, .mark), (0x108E, .letter),
  (0x108F, .mark), (0x1090, .digit), (0x109A, .mark), (0x109E, .symbol), (0x10A0, .upper),
  (0x10C6, .other), (0x10C7, .upper), (0x10C8, .other), (0x10CD, .upper), (0x10CE, .other),
  (0x10D0, .lower), (0x10FB, .punctuation), (0x10FC, .letter), (0x10FD, .lower), (0x1100, .letter),
  (0x1249, .other), (0x124A, .letter), (0x124E, .other), (0x1250, .letter), (0x1257, .other),
  (0x1258, .letter), (0x1259, .other), (0x125A, .letter), (0x125E, .other), (0x1260, .letter),
  (0x1289, .other), (0x128A, .letter), (0x128E, .other), (0x1290, .letter), (0x12B1, .other),
  (0x12B2, .letter), (0x12B6, .other), (0x12B8, .letter), (0x12BF, .other), (0x12C0, .letter),
  (0x12C1, .other), (0x12C2, .letter), (0x12C6, .other), (0x12C8, .letter), (0x12D7, .other),
  (0x12D8, .letter), (0x1311, .other), (0x1312, .letter), (0x1316, .other), (0x1318, .letter),
  (0x135B, .other), (0x135D, .mark), (0x1360, .punctuation), (0x1369, .number), (0x137D, .other),
  (0x1380, .letter), (0x1390, .symbol), (0x139A, .other), (0x13A0, .upper), (0x13F6, .other),
  (0x13F8, .lower), (0x13FE, .other)]

def from1400 : List (Nat × Category) := [
  (0x1400, .punctuation), (0x1401, .letter), (0x166D, .symbol), (0x166E, .punctuation),
  (0x166F, .letter), (0x1680, .separator), (0x1681, .letter), (0x169B, .punctuation),
  (0x169D, .other), (0x16A0, .letter), (0x16EB, .punctuation), (0x16EE, .number),
  (0x16F1, .letter), (0x16F9, .other), (0x1700, .letter), (0x1712, .mark), (0x1716, .other),
  (0x171F, .letter), (0x1732, .mark), (0x1735, .punctuation), (0x1737, .other), (0x1740, .letter),
  (0x1752, .mark), (0x1754, .other), (0x1760, .letter), (0x176D, .other), (0x176E, .letter),
  (0x1771, .other), (0x1772, .mark), (0x1774, .other), (0x1780, .letter), (0x17B4, .mark),
  (0x17D4, .punctuation), (0x17D7, .letter), (0x17D8, .punctuation), (0x17DB, .symbol),
  (0x17DC, .letter), (0x17DD, .mark), (0x17DE, .other), (0x17E0, .digit), (0x17EA, .other),
  (0x17F0, .number), (0x17FA, .other), (0x1800, .punctuation), (0x180B, .mark), (0x180E, .other),
  (0x180F, .mark), (0x1810, .digit), (0x181A, .other), (0x1820, .letter), (0x1879, .other),
  (0x1880, .letter), (0x1885, .mark), (0x1887, .letter), (0x18A9, .mark), (0x18AA, .letter),
  (0x18AB, .other), (0x18B0, .letter), (0x18F6, .other), (0x1900, .letter), (0x191F, .other),
  (0x1920, .mark), (0x192C, .other), (0x1930, .mark), (0x193C, .other), (0x1940, .symbol),
  (0x1941, .other), (0x1944, .punctuation), (0x1946, .digit), (0x1950, .letter), (0x196E, .other),
  (0x1970, .letter), (0x1975, .other), (0x1980, .letter), (0x19AC, .other), (0x19B0, .letter),
  (0x19CA, .other), (0x19D0, .digit), (0x19DA, .number), (0x19DB, .other), (0x19DE, .symbol),
  (0x1A00, .letter), (0x1A17, .mark), (0x1A1C, .other), (0x1A1E, .punctuation), (0x1A20, .letter),
  (0x1A55, .mark), (0x1A5F, .other), (0x1A60, .mark), (0x1A7D, .other), (0x1A7F, .mark),
  (0x1A80, .digit), (0x1A8A, .other), (0x1A90, .digit), (0x1A9A, .other), (0x1AA0, .punctuation),
  (0x1AA7, .letter), (0x1AA8, .punctuation), (0x1AAE, .other), (0x1AB0, .mark), (0x1ADE, .other),
  (0x1AE0, .mark), (0x1AEC, .other), (0x1B00, .mark), (0x1B05, .letter), (0x1B34, .mark),
  (0x1B45, .letter), (0x1B4D, .other), (0x1B4E, .punctuation), (0x1B50, .digit),
  (0x1B5A, .punctuation), (0x1B61, .symbol), (0x1B6B, .mark), (0x1B74, .symbol),
  (0x1B7D, .punctuation), (0x1B80, .mark), (0x1B83, .letter), (0x1BA1, .mark), (0x1BAE, .letter),
  (0x1BB0, .digit), (0x1BBA, .letter), (0x1BE6, .mark), (0x1BF4, .other), (0x1BFC, .punctuation),
  (0x1C00, .letter), (0x1C24, .mark), (0x1C38, .other), (0x1C3B, .punctuation), (0x1C40, .digit),
  (0x1C4A, .other), (0x1C4D, .letter), (0x1C50, .digit), (0x1C5A, .letter), (0x1C7E, .punctuation),
  (0x1C80, .lower), (0x1C89, .upper), (0x1C8A, .lower), (0x1C8B, .other), (0x1C90, .upper),
  (0x1CBB, .other), (0x1CBD, .upper), (0x1CC0, .punctuation), (0x1CC8, .other), (0x1CD0, .mark),
  (0x1CD3, .punctuation), (0x1CD4, .mark), (0x1CE9, .letter), (0x1CED, .mark), (0x1CEE, .letter),
  (0x1CF4, .mark), (0x1CF5, .letter), (0x1CF7, .mark), (0x1CFA, .letter), (0x1CFB, .other),
  (0x1D00, .lower), (0x1D2C, .letter), (0x1D6B, .lower), (0x1D78, .letter), (0x1D79, .lower),
  (0x1D9B, .letter), (0x1DC0, .mark)]

def from1E00 : List (Nat × Category) := [
  (0x1E00, .upper), (0x1E01, .lower), (0x1E02, .upper), (0x1E03, .lower), (0x1E04, .upper),
  (0x1E05, .lower), (0x1E06, .upper), (0x1E07, .lower), (0x1E08, .upper), (0x1E09, .lower),
  (0x1E0A, .upper), (0x1E0B, .lower), (0x1E0C, .upper), (0x1E0D, .lower), (0x1E0E, .upper),
  (0x1E0F, .lower), (0x1E10, .upper), (0x1E11, .lower), (0x1E12, .upper), (0x1E13, .lower),
  (0x1E14, .upper), (0x1E15, .lower), (0x1E16, .upper), (0x1E17, .lower), (0x1E18, .upper),
  (0x1E19, .lower), (0x1E1A, .upper), (0x1E1B, .lower), (0x1E1C, .upper), (0x1E1D, .lower),
  (0x1E1E, .upper), (0x1E1F, .lower), (0x1E20, .upper), (0x1E21, .lower), (0x1E22, .upper),
  (0x1E23, .lower), (0x1E24, .upper), (0x1E25, .lower), (0x1E26, .upper), (0x1E27, .lower),
  (0x1E28, .upper), (0x1E29, .lower), (0x1E2A, .upper), (0x1E2B, .lower), (0x1E2C, .upper),
  (0x1E2D, .lower), (0x1E2E, .upper), (0x1E2F, .lower), (0x1E30, .upper), (0x1E31, .lower),
  (0x1E32, .upper), (0x1E33, .lower), (0x1E34, .upper), (0x1E35, .lower), (0x1E36, .upper),
  (0x1E37, .lower), (0x1E38, .upper), (0x1E39, .lower), (0x1E3A, .upper), (0x1E3B, .lower),
  (0x1E3C, .upper), (0x1E3D, .lower), (0x1E3E, .upper), (0x1E3F, .lower), (0x1E40, .upper),
  (0x1E41, .lower), (0x1E42, .upper), (0x1E43, .lower), (0x1E44, .upper), (0x1E45, .lower),
  (0x1E46, .upper), (0x1E47, .lower), (0x1E48, .upper), (0x1E49, .lower), (0x1E4A, .upper),
  (0x1E4B, .lower), (0x1E4C, .upper), (0x1E4D, .lower), (0x1E4E, .upper), (0x1E4F, .lower),
  (0x1E50, .upper), (0x1E51, .lower), (0x1E52, .upper), (0x1E53, .lower), (0x1E54, .upper),
  (0x1E55, .lower), (0x1E56, .upper), (0x1E57, .lower), (0x1E58, .upper), (0x1E59, .lower),
  (0x1E5A, .upper), (0x1E5B, .lower), (0x1E5C, .upper), (0x1E5D, .lower), (0x1E5E, .upper),
  (0x1E5F, .lower), (0x1E60, .upper), (0x1E61, .lower), (0x1E62, .upper), (0x1E63, .lower),
  (0x1E64, .upper), (0x1E65, .lower), (0x1E66, .upper), (0x1E67, .lower), (0x1E68, .upper),
  (0x1E69, .lower), (0x1E6A, .upper), (0x1E6B, .lower), (0x1E6C, .upper), (0x1E6D, .lower),
  (0x1E6E, .upper), (0x1E6F, .lower), (0x1E70, .upper), (0x1E71, .lower), (0x1E72, .upper),
  (0x1E73, .lower), (0x1E74, .upper), (0x1E75, .lower), (0x1E76, .upper), (0x1E77, .lower),
  (0x1E78, .upper), (0x1E79, .lower), (0x1E7A, .upper), (0x1E7B, .lower), (0x1E7C, .upper),
  (0x1E7D, .lower), (0x1E7E, .upper), (0x1E7F, .lower), (0x1E80, .upper), (0x1E81, .lower),
  (0x1E82, .upper), (0x1E83, .lower), (0x1E84, .upper), (0x1E85, .lower), (0x1E86, .upper),
  (0x1E87, .lower), (0x1E88, .upper), (0x1E89, .lower), (0x1E8A, .upper), (0x1E8B, .lower),
  (0x1E8C, .upper), (0x1E8D, .lower), (0x1E8E, .upper), (0x1E8F, .lower), (0x1E90, .upper),
  (0x1E91, .lower), (0x1E92, .upper), (0x1E93, .lower), (0x1E94, .upper), (0x1E95, .lower),
  (0x1E9E, .upper), (0x1E9F, .lower), (0x1EA0, .upper), (0x1EA1, .lower), (0x1EA2, .upper),
  (0x1EA3, .lower), (0x1EA4, .upper), (0x1EA5, .lower), (0x1EA6, .upper), (0x1EA7, .lower),
  (0x1EA8, .upper), (0x1EA9, .lower), (0x1EAA, .upper), (0x1EAB, .lower), (0x1EAC, .upper),
  (0x1EAD, .lower), (0x1EAE, .upper), (0x1EAF, .lower), (0x1EB0, .upper), (0x1EB1, .lower),
  (0x1EB2, .upper), (0x1EB3, .lower), (0x1EB4, .upper), (0x1EB5, .lower), (0x1EB6, .upper),
  (0x1EB7, .lower), (0x1EB8, .upper), (0x1EB9, .lower), (0x1EBA, .upper), (0x1EBB, .lower),
  (0x1EBC, .upper), (0x1EBD, .lower), (0x1EBE, .upper), (0x1EBF, .lower), (0x1EC0, .upper),
  (0x1EC1, .lower), (0x1EC2, .upper), (0x1EC3, .lower), (0x1EC4, .upper), (0x1EC5, .lower),
  (0x1EC6, .upper), (0x1EC7, .lower), (0x1EC8, .upper), (0x1EC9, .lower), (0x1ECA, .upper),
  (0x1ECB, .lower), (0x1ECC, .upper), (0x1ECD, .lower), (0x1ECE, .upper), (0x1ECF, .lower),
  (0x1ED0, .upper), (0x1ED1, .lower), (0x1ED2, .upper), (0x1ED3, .lower), (0x1ED4, .upper),
  (0x1ED5, .lower), (0x1ED6, .upper), (0x1ED7, .lower), (0x1ED8, .upper), (0x1ED9, .lower),
  (0x1EDA, .upper), (0x1EDB, .lower), (0x1EDC, .upper), (0x1EDD, .lower), (0x1EDE, .upper),
  (0x1EDF, .lower), (0x1EE0, .upper), (0x1EE1, .lower), (0x1EE2, .upper), (0x1EE3, .lower),
  (0x1EE4, .upper), (0x1EE5, .lower), (0x1EE6, .upper), (0x1EE7, .lower), (0x1EE8, .upper),
  (0x1EE9, .lower), (0x1EEA, .upper), (0x1EEB, .lower), (0x1EEC, .upper), (0x1EED, .lower),
  (0x1EEE, .upper), (0x1EEF, .lower), (0x1EF0, .upper), (0x1EF1, .lower), (0x1EF2, .upper),
  (0x1EF3, .lower), (0x1EF4, .upper), (0x1EF5, .lower), (0x1EF6, .upper), (0x1EF7, .lower),
  (0x1EF8, .upper), (0x1EF9, .lower), (0x1EFA, .upper), (0x1EFB, .lower), (0x1EFC, .upper),
  (0x1EFD, .lower), (0x1EFE, .upper), (0x1EFF, .lower), (0x1F08, .upper), (0x1F10, .lower),
  (0x1F16, .other), (0x1F18, .upper), (0x1F1E, .other), (0x1F20, .lower), (0x1F28, .upper),
  (0x1F30, .lower), (0x1F38, .upper), (0x1F40, .lower), (0x1F46, .other), (0x1F48, .upper),
  (0x1F4E, .other), (0x1F50, .lower), (0x1F58, .other), (0x1F59, .upper), (0x1F5A, .other),
  (0x1F5B, .upper), (0x1F5C, .other), (0x1F5D, .upper), (0x1F5E, .other), (0x1F5F, .upper),
  (0x1F60, .lower), (0x1F68, .upper), (0x1F70, .lower), (0x1F7E, .other), (0x1F80, .lower),
  (0x1F88, .letter), (0x1F90, .lower), (0x1F98, .letter), (0x1FA0, .lower), (0x1FA8, .letter),
  (0x1FB0, .lower), (0x1FB5, .other), (0x1FB6, .lower), (0x1FB8, .upper), (0x1FBC, .letter),
  (0x1FBD, .symbol), (0x1FBE, .lower), (0x1FBF, .symbol), (0x1FC2, .lower), (0x1FC5, .other),
  (0x1FC6, .lower), (0x1FC8, .upper), (0x1FCC, .letter), (0x1FCD, .symbol), (0x1FD0, .lower),
  (0x1FD4, .other), (0x1FD6, .lower), (0x1FD8, .upper), (0x1FDC, .other), (0x1FDD, .symbol),
  (0x1FE0, .lower), (0x1FE8, .upper), (0x1FED, .symbol), (0x1FF0, .other), (0x1FF2, .lower),
  (0x1FF5, .other), (0x1FF6, .lower), (0x1FF8, .upper), (0x1FFC, .letter), (0x1FFD, .symbol),
  (0x1FFF, .other), (0x2000, .separator), (0x200B, .other), (0x2010, .punctuation),
  (0x2028, .separator), (0x202A, .other), (0x202F, .separator), (0x2030, .punctuation),
  (0x2044, .symbol), (0x2045, .punctuation), (0x2052, .symbol), (0x2053, .punctuation),
  (0x205F, .separator), (0x2060, .other), (0x2070, .number), (0x2071, .letter), (0x2072, .other),
  (0x2074, .number), (0x207A, .symbol), (0x207D, .punctuation), (0x207F, .letter),
  (0x2080, .number), (0x208A, .symbol), (0x208D, .punctuation), (0x208F, .other),
  (0x2090, .letter), (0x209D, .other), (0x20A0, .symbol), (0x20C2, .other), (0x20D0, .mark),
  (0x20F1, .other), (0x2100, .symbol), (0x2102, .upper), (0x2103, .symbol), (0x2107, .upper),
  (0x2108, .symbol), (0x210A, .lower), (0x210B, .upper), (0x210E, .lower), (0x2110, .upper),
  (0x2113, .lower), (0x2114, .symbol), (0x2115, .upper), (0x2116, .symbol), (0x2119, .upper),
  (0x211E, .symbol), (0x2124, .upper), (0x2125, .symbol), (0x2126, .upper), (0x2127, .symbol),
  (0x2128, .upper), (0x2129, .symbol), (0x212A, .upper), (0x212E, .symbol), (0x212F, .lower),
  (0x2130, .upper), (0x2134, .lower), (0x2135, .letter), (0x2139, .lower), (0x213A, .symbol),
  (0x213C, .lower), (0x213E, .upper), (0x2140, .symbol), (0x2145, .upper), (0x2146, .lower),
  (0x214A, .symbol), (0x214E, .lower), (0x214F, .symbol), (0x2150, .number), (0x2183, .upper),
  (0x2184, .lower), (0x2185, .number), (0x218A, .symbol), (0x218C, .other), (0x2190, .symbol),
  (0x2308, .punctuation), (0x230C, .symbol), (0x2329, .punctuation), (0x232B, .symbol),
  (0x242A, .other), (0x2440, .symbol), (0x244B, .other), (0x2460, .number), (0x249C, .symbol),
  (0x24EA, .number), (0x2500, .symbol), (0x2768, .punctuation), (0x2776, .number),
  (0x2794, .symbol), (0x27C5, .punctuation), (0x27C7, .symbol), (0x27E6, .punctuation),
  (0x27F0, .symbol), (0x2983, .punctuation), (0x2999, .symbol), (0x29D8, .punctuation),
  (0x29DC, .symbol), (0x29FC, .punctuation), (0x29FE, .symbol), (0x2B74, .other),
  (0x2B76, .symbol)]

def from2C00 : List (Nat × Category) := [
  (0x2C00, .upper), (0x2C30, .lower), (0x2C60, .upper), (0x2C61, .lower), (0x2C62, .upper),
  (0x2C65, .lower), (0x2C67, .upper), (0x2C68, .lower), (0x2C69, .upper), (0x2C6A, .lower),
  (0x2C6B, .upper), (0x2C6C, .lower), (0x2C6D, .upper), (0x2C71, .lower), (0x2C72, .upper),
  (0x2C73, .lower), (0x2C75, .upper), (0x2C76, .lower), (0x2C7C, .letter), (0x2C7E, .upper),
  (0x2C81, .lower), (0x2C82, .upper), (0x2C83, .lower), (0x2C84, .upper), (0x2C85, .lower),
  (0x2C86, .upper), (0x2C87, .lower), (0x2C88, .upper), (0x2C89, .lower), (0x2C8A, .upper),
  (0x2C8B, .lower), (0x2C8C, .upper), (0x2C8D, .lower), (0x2C8E, .upper), (0x2C8F, .lower),
  (0x2C90, .upper), (0x2C91, .lower), (0x2C92, .upper), (0x2C93, .lower), (0x2C94, .upper),
  (0x2C95, .lower), (0x2C96, .upper), (0x2C97, .lower), (0x2C98, .upper), (0x2C99, .lower),
  (0x2C9A, .upper), (0x2C9B, .lower), (0x2C9C, .upper), (0x2C9D, .lower), (0x2C9E, .upper),
  (0x2C9F, .lower), (0x2CA0, .upper), (0x2CA1, .lower), (0x2CA2, .upper), (0x2CA3, .lower),
  (0x2CA4, .upper), (0x2CA5, .lower), (0x2CA6, .upper), (0x2CA7, .lower), (0x2CA8, .upper),
  (0x2CA9, .lower), (0x2CAA, .upper), (0x2CAB, .lower), (0x2CAC, .upper), (0x2CAD, .lower),
  (0x2CAE, .upper), (0x2CAF, .lower), (0x2CB0, .upper), (0x2CB1, .lower), (0x2CB2, .upper),
  (0x2CB3, .lower), (0x2CB4, .upper), (0x2CB5, .lower), (0x2CB6, .upper), (0x2CB7, .lower),
  (0x2CB8, .upper), (0x2CB9, .lower), (0x2CBA, .upper), (0x2CBB, .lower), (0x2CBC, .upper),
  (0x2CBD, .lower), (0x2CBE, .upper), (0x2CBF, .lower), (0x2CC0, .upper), (0x2CC1, .lower),
  (0x2CC2, .upper), (0x2CC3, .lower), (0x2CC4, .upper), (0x2CC5, .lower), (0x2CC6, .upper),
  (0x2CC7, .lower), (0x2CC8, .upper), (0x2CC9, .lower), (0x2CCA, .upper), (0x2CCB, .lower),
  (0x2CCC, .upper), (0x2CCD, .lower), (0x2CCE, .upper), (0x2CCF, .lower), (0x2CD0, .upper),
  (0x2CD1, .lower), (0x2CD2, .upper), (0x2CD3, .lower), (0x2CD4, .upper), (0x2CD5, .lower),
  (0x2CD6, .upper), (0x2CD7, .lower), (0x2CD8, .upper), (0x2CD9, .lower), (0x2CDA, .upper),
  (0x2CDB, .lower), (0x2CDC, .upper), (0x2CDD, .lower), (0x2CDE, .upper), (0x2CDF, .lower),
  (0x2CE0, .upper), (0x2CE1, .lower), (0x2CE2, .upper), (0x2CE3, .lower), (0x2CE5, .symbol),
  (0x2CEB, .upper), (0x2CEC, .lower), (0x2CED, .upper), (0x2CEE, .lower), (0x2CEF, .mark),
  (0x2CF2, .upper), (0x2CF3, .lower), (0x2CF4, .other), (0x2CF9, .punctuation), (0x2CFD, .number),
  (0x2CFE, .punctuation), (0x2D00, .lower), (0x2D26, .other), (0x2D27, .lower), (0x2D28, .other),
  (0x2D2D, .lower), (0x2D2E, .other), (0x2D30, .letter), (0x2D68, .other), (0x2D6F, .letter),
  (0x2D70, .punctuation), (0x2D71, .other), (0x2D7F, .mark), (0x2D80, .letter), (0x2D97, .other),
  (0x2DA0, .letter), (0x2DA7, .other), (0x2DA8, .letter), (0x2DAF, .other), (0x2DB0, .letter),
  (0x2DB7, .other), (0x2DB8, .letter), (0x2DBF, .other), (0x2DC0, .letter), (0x2DC7, .other),
  (0x2DC8, .letter), (0x2DCF, .other), (0x2DD0, .letter), (0x2DD7, .other), (0x2DD8, .letter),
  (0x2DDF, .other), (0x2DE0, .mark), (0x2E00, .punctuation), (0x2E2F, .letter),
  (0x2E30, .punctuation), (0x2E50, .symbol), (0x2E52, .punctuation), (0x2E5E, .other),
  (0x2E80, .symbol), (0x2E9A, .other), (0x2E9B, .symbol), (0x2EF4, .other), (0x2F00, .symbol),
  (0x2FD6, .other), (0x2FF0, .symbol), (0x3000, .separator), (0x3001, .punctuation),
  (0x3004, .symbol), (0x3005, .letter), (0x3007, .number), (0x3008, .punctuation),
  (0x3012, .symbol), (0x3014, .punctuation), (0x3020, .symbol), (0x3021, .number), (0x302A, .mark),
  (0x3030, .punctuation), (0x3031, .letter), (0x3036, .symbol), (0x3038, .number),
  (0x303B, .letter), (0x303D, .punctuation), (0x303E, .symbol), (0x3040, .other),
  (0x3041, .letter), (0x3097, .other), (0x3099, .mark), (0x309B, .symbol), (0x309D, .letter),
  (0x30A0, .punctuation), (0x30A1, .letter), (0x30FB, .punctuation), (0x30FC, .letter),
  (0x3100, .other), (0x3105, .letter), (0x3130, .other), (0x3131, .letter), (0x318F, .other),
  (0x3190, .symbol), (0x3192, .number), (0x3196, .symbol), (0x31A0, .letter), (0x31C0, .symbol),
  (0x31E6, .other), (0x31EF, .symbol), (0x31F0, .letter), (0x3200, .symbol), (0x321F, .other),
  (0x3220, .number), (0x322A, .symbol), (0x3248, .number), (0x3250, .symbol), (0x3251, .number),
  (0x3260, .symbol), (0x3280, .number), (0x328A, .symbol), (0x32B1, .number), (0x32C0, .symbol),
  (0x3400, .letter), (0x4DC0, .symbol), (0x4E00, .letter), (0xA48D, .other), (0xA490, .symbol),
  (0xA4C7, .other), (0xA4D0, .letter), (0xA4FE, .punctuation), (0xA500, .letter),
  (0xA60D, .punctuation), (0xA610, .letter), (0xA620, .digit), (0xA62A, .letter), (0xA62C, .other)]

def fromA640 : List (Nat × Category) := [
  (0xA640, .upper), (0xA641, .lower), (0xA642, .upper), (0xA643, .lower), (0xA644, .upper),
  (0xA645, .lower), (0xA646, .upper), (0xA647, .lower), (0xA648, .upper), (0xA649, .lower),
  (0xA64A, .upper), (0xA64B, .lower), (0xA64C, .upper), (0xA64D, .lower), (0xA64E, .upper),
  (0xA64F, .lower), (0xA650, .upper), (0xA651, .lower), (0xA652, .upper), (0xA653, .lower),
  (0xA654, .upper), (0xA655, .lower), (0xA656, .upper), (0xA657, .lower), (0xA658, .upper),
  (0xA659, .lower), (0xA65A, .upper), (0xA65B, .lower), (0xA65C, .upper), (0xA65D, .lower),
  (0xA65E, .upper), (0xA65F, .lower), (0xA660, .upper), (0xA661, .lower), (0xA662, .upper),
  (0xA663, .lower), (0xA664, .upper), (0xA665, .lower), (0xA666, .upper), (0xA667, .lower),
  (0xA668, .upper), (0xA669, .lower), (0xA66A, .upper), (0xA66B, .lower), (0xA66C, .upper),
  (0xA66D, .lower), (0xA66E, .letter), (0xA66F, .mark), (0xA673, .punctuation), (0xA674, .mark),
  (0xA67E, .punctuation), (0xA67F, .letter), (0xA680, .upper), (0xA681, .lower), (0xA682, .upper),
  (0xA683, .lower), (0xA684, .upper), (0xA685, .lower), (0xA686, .upper), (0xA687, .lower),
  (0xA688, .upper), (0xA689, .lower), (0xA68A, .upper), (0xA68B, .lower), (0xA68C, .upper),
  (0xA68D, .lower), (0xA68E, .upper), (0xA68F, .lower), (0xA690, .upper), (0xA691, .lower),
  (0xA692, .upper), (0xA693, .lower), (0xA694, .upper), (0xA695, .lower), (0xA696, .upper),
  (0xA697, .lower), (0xA698, .upper), (0xA699, .lower), (0xA69A, .upper), (0xA69B, .lower),
  (0xA69C, .letter), (0xA69E, .mark), (0xA6A0, .letter), (0xA6E6, .number), (0xA6F0, .mark),
  (0xA6F2, .punctuation), (0xA6F8, .other), (0xA700, .symbol), (0xA717, .letter),
  (0xA720, .symbol), (0xA722, .upper), (0xA723, .lower), (0xA724, .upper), (0xA725, .lower),
  (0xA726, .upper), (0xA727, .lower), (0xA728, .upper), (0xA729, .lower), (0xA72A, .upper),
  (0xA72B, .lower), (0xA72C, .upper), (0xA72D, .lower), (0xA72E, .upper), (0xA72F, .lower),
  (0xA732, .upper), (0xA733, .lower), (0xA734, .upper), (0xA735, .lower), (0xA736, .upper),
  (0xA737, .lower), (0xA738, .upper), (0xA739, .lower), (0xA73A, .upper), (0xA73B, .lower),
  (0xA73C, .upper), (0xA73D, .lower), (0xA73E, .upper), (0xA73F, .lower), (0xA740, .upper),
  (0xA741, .lower), (0xA742, .upper), (0xA743, .lower), (0xA744, .upper), (0xA745, .lower),
  (0xA746, .upper), (0xA747, .lower), (0xA748, .upper), (0xA749, .lower), (0xA74A, .upper),
  (0xA74B, .lower), (0xA74C, .upper), (0xA74D, .lower), (0xA74E, .upper), (0xA74F, .lower),
  (0xA750, .upper), (0xA751, .lower), (0xA752, .upper), (0xA753, .lower), (0xA754, .upper),
  (0xA755, .lower), (0xA756, .upper), (0xA757, .lower), (0xA758, .upper), (0xA759, .lower),
  (0xA75A, .upper), (0xA75B, .lower), (0xA75C, .upper), (0xA75D, .lower), (0xA75E, .upper),
  (0xA75F, .lower), (0xA760, .upper), (0xA761, .lower), (0xA762, .upper), (0xA763, .lower),
  (0xA764, .upper), (0xA765, .lower), (0xA766, .upper), (0xA767, .lower), (0xA768, .upper),
  (0xA769, .lower), (0xA76A, .upper), (0xA76B, .lower), (0xA76C, .upper), (0xA76D, .lower),
  (0xA76E, .upper), (0xA76F, .lower), (0xA770, .letter), (0xA771, .lower), (0xA779, .upper),
  (0xA77A, .lower), (0xA77B, .upper), (0xA77C, .lower), (0xA77D, .upper), (0xA77F, .lower),
  (0xA780, .upper), (0xA781, .lower), (0xA782, .upper), (0xA783, .lower), (0xA784, .upper),
  (0xA785, .lower), (0xA786, .upper), (0xA787, .lower), (0xA788, .letter), (0xA789, .symbol),
  (0xA78B, .upper), (0xA78C, .lower), (0xA78D, .upper), (0xA78E, .lower), (0xA78F, .letter),
  (0xA790, .upper), (0xA791, .lower), (0xA792, .upper), (0xA793, .lower), (0xA796, .upper),
  (0xA797, .lower), (0xA798, .upper), (0xA799, .lower), (0xA79A, .upper), (0xA79B, .lower),
  (0xA79C, .upper), (0xA79D, .lower), (0xA79E, .upper), (0xA79F, .lower), (0xA7A0, .upper),
  (0xA7A1, .lower), (0xA7A2, .upper), (0xA7A3, .lower), (0xA7A4, .upper), (0xA7A5, .lower),
  (0xA7A6, .upper), (0xA7A7, .lower), (0xA7A8, .upper), (0xA7A9, .lower), (0xA7AA, .upper),
  (0xA7AF, .lower), (0xA7B0, .upper), (0xA7B5, .lower), (0xA7B6, .upper), (0xA7B7, .lower),
  (0xA7B8, .upper), (0xA7B9, .lower), (0xA7BA, .upper), (0xA7BB, .lower), (0xA7BC, .upper),
  (0xA7BD, .lower), (0xA7BE, .upper), (0xA7BF, .lower), (0xA7C0, .upper), (0xA7C1, .lower),
  (0xA7C2, .upper), (0xA7C3, .lower), (0xA7C4, .upper), (0xA7C8, .lower), (0xA7C9, .upper),
  (0xA7CA, .lower), (0xA7CB, .upper), (0xA7CD, .lower), (0xA7CE, .upper), (0xA7CF, .lower),
  (0xA7D0, .upper), (0xA7D1, .lower), (0xA7D2, .upper), (0xA7D3, .lower), (0xA7D4, .upper),
  (0xA7D5, .lower), (0xA7D6, .upper), (0xA7D7, .lower), (0xA7D8, .upper), (0xA7D9, .lower),
  (0xA7DA, .upper), (0xA7DB, .lower), (0xA7DC, .upper), (0xA7DD, .other), (0xA7F1, .letter),
  (0xA7F5, .upper), (0xA7F6, .lower), (0xA7F7, .letter), (0xA7FA, .lower), (0xA7FB, .letter),
  (0xA802, .mark), (0xA803, .letter), (0xA806, .mark), (0xA807, .letter), (0xA80B, .mark),
  (0xA80C, .letter), (0xA823, .mark), (0xA828, .symbol), (0xA82C, .mark), (0xA82D, .other),
  (0xA830, .number), (0xA836, .symbol), (0xA83A, .other), (0xA840, .letter),
  (0xA874, .punctuation), (0xA878, .other), (0xA880, .mark), (0xA882, .letter), (0xA8B4, .mark),
  (0xA8C6, .other), (0xA8CE, .punctuation), (0xA8D0, .digit), (0xA8DA, .other), (0xA8E0, .mark),
  (0xA8F2, .letter), (0xA8F8, .punctuation), (0xA8FB, .letter), (0xA8FC, .punctuation),
  (0xA8FD, .letter), (0xA8FF, .mark), (0xA900, .digit), (0xA90A, .letter), (0xA926, .mark),
  (0xA92E, .punctuation), (0xA930, .letter), (0xA947, .mark), (0xA954, .other),
  (0xA95F, .punctuation), (0xA960, .letter), (0xA97D, .other), (0xA980, .mark), (0xA984, .letter),
  (0xA9B3, .mark), (0xA9C1, .punctuation), (0xA9CE, .other), (0xA9CF, .letter), (0xA9D0, .digit),
  (0xA9DA, .other), (0xA9DE, .punctuation), (0xA9E0, .letter), (0xA9E5, .mark), (0xA9E6, .letter),
  (0xA9F0, .digit), (0xA9FA, .letter), (0xA9FF, .other), (0xAA00, .letter), (0xAA29, .mark),
  (0xAA37, .other), (0xAA40, .letter), (0xAA43, .mark), (0xAA44, .letter), (0xAA4C, .mark),
  (0xAA4E, .other), (0xAA50, .digit), (0xAA5A, .other), (0xAA5C, .punctuation), (0xAA60, .letter),
  (0xAA77, .symbol), (0xAA7A, .letter), (0xAA7B, .mark), (0xAA7E, .letter), (0xAAB0, .mark),
  (0xAAB1, .letter), (0xAAB2, .mark), (0xAAB5, .letter), (0xAAB7, .mark), (0xAAB9, .letter),
  (0xAABE, .mark), (0xAAC0, .letter), (0xAAC1, .mark), (0xAAC2, .letter), (0xAAC3, .other),
  (0xAADB, .letter), (0xAADE, .punctuation), (0xAAE0, .letter), (0xAAEB, .mark),
  (0xAAF0, .punctuation), (0xAAF2, .letter), (0xAAF5, .mark), (0xAAF7, .other), (0xAB01, .letter),
  (0xAB07, .other), (0xAB09, .letter), (0xAB0F, .other), (0xAB11, .letter), (0xAB17, .other),
  (0xAB20, .letter), (0xAB27, .other), (0xAB28, .letter), (0xAB2F, .other), (0xAB30, .lower),
  (0xAB5B, .symbol), (0xAB5C, .letter), (0xAB60, .lower), (0xAB69, .letter), (0xAB6A, .symbol),
  (0xAB6C, .other), (0xAB70, .lower), (0xABC0, .letter), (0xABE3, .mark), (0xABEB, .punctuation),
  (0xABEC, .mark), (0xABEE, .other), (0xABF0, .digit), (0xABFA, .other), (0xAC00, .letter),
  (0xD7A4, .other), (0xD7B0, .letter), (0xD7C7, .other), (0xD7CB, .letter), (0xD7FC, .other),
  (0xF900, .letter), (0xFA6E, .other), (0xFA70, .letter), (0xFADA, .other)]

def fromFB00 : List (Nat × Category) := [
  (0xFB00, .lower), (0xFB07, .other), (0xFB13, .lower), (0xFB18, .other), (0xFB1D, .letter),
  (0xFB1E, .mark), (0xFB1F, .letter), (0xFB29, .symbol), (0xFB2A, .letter), (0xFB37, .other),
  (0xFB38, .letter), (0xFB3D, .other), (0xFB3E, .letter), (0xFB3F, .other), (0xFB40, .letter),
  (0xFB42, .other), (0xFB43, .letter), (0xFB45, .other), (0xFB46, .letter), (0xFBB2, .symbol),
  (0xFBD3, .letter), (0xFD3E, .punctuation), (0xFD40, .symbol), (0xFD50, .letter),
  (0xFD90, .symbol), (0xFD92, .letter), (0xFDC8, .symbol), (0xFDD0, .other), (0xFDF0, .letter),
  (0xFDFC, .symbol), (0xFE00, .mark), (0xFE10, .punctuation), (0xFE1A, .other), (0xFE20, .mark),
  (0xFE30, .punctuation), (0xFE53, .other), (0xFE54, .punctuation), (0xFE62, .symbol),
  (0xFE63, .punctuation), (0xFE64, .symbol), (0xFE67, .other), (0xFE68, .punctuation),
  (0xFE69, .symbol), (0xFE6A, .punctuation), (0xFE6C, .other), (0xFE70, .letter), (0xFE75, .other),
  (0xFE76, .letter), (0xFEFD, .other), (0xFF01, .punctuation), (0xFF04, .symbol),
  (0xFF05, .punctuation), (0xFF0B, .symbol), (0xFF0C, .punctuation), (0xFF10, .digit),
  (0xFF1A, .punctuation), (0xFF1C, .symbol), (0xFF1F, .punctuation), (0xFF21, .upper),
  (0xFF3B, .punctuation), (0xFF3E, .symbol), (0xFF3F, .punctuation), (0xFF40, .symbol),
  (0xFF41, .lower), (0xFF5B, .punctuation), (0xFF5C, .symbol), (0xFF5D, .punctuation),
  (0xFF5E, .symbol), (0xFF5F, .punctuation), (0xFF66, .letter), (0xFFBF, .other),
  (0xFFC2, .letter), (0xFFC8, .other), (0xFFCA, .letter), (0xFFD0, .other), (0xFFD2, .letter),
  (0xFFD8, .other), (0xFFDA, .letter), (0xFFDD, .other), (0xFFE0, .symbol), (0xFFE7, .other),
  (0xFFE8, .symbol), (0xFFEF, .other), (0xFFFC, .symbol), (0xFFFE, .other), (0x10000, .letter),
  (0x1000C, .other), (0x1000D, .letter), (0x10027, .other), (0x10028, .letter), (0x1003B, .other),
  (0x1003C, .letter), (0x1003E, .other), (0x1003F, .letter), (0x1004E, .other), (0x10050, .letter),
  (0x1005E, .other), (0x10080, .letter), (0x100FB, .other), (0x10100, .punctuation),
  (0x10103, .other), (0x10107, .number), (0x10134, .other), (0x10137, .symbol), (0x10140, .number),
  (0x10179, .symbol), (0x1018A, .number), (0x1018C, .symbol), (0x1018F, .other),
  (0x10190, .symbol), (0x1019D, .other), (0x101A0, .symbol), (0x101A1, .other), (0x101D0, .symbol),
  (0x101FD, .mark), (0x101FE, .other), (0x10280, .letter), (0x1029D, .other), (0x102A0, .letter),
  (0x102D1, .other), (0x102E0, .mark), (0x102E1, .number), (0x102FC, .other), (0x10300, .letter),
  (0x10320, .number), (0x10324, .other), (0x1032D, .letter), (0x10341, .number),
  (0x10342, .letter), (0x1034A, .number), (0x1034B, .other), (0x10350, .letter), (0x10376, .mark),
  (0x1037B, .other), (0x10380, .letter), (0x1039E, .other), (0x1039F, .punctuation),
  (0x103A0, .letter), (0x103C4, .other), (0x103C8, .letter), (0x103D0, .punctuation),
  (0x103D1, .number), (0x103D6, .other), (0x10400, .upper), (0x10428, .lower), (0x10450, .letter),
  (0x1049E, .other), (0x104A0, .digit), (0x104AA, .other), (0x104B0, .upper), (0x104D4, .other),
  (0x104D8, .lower), (0x104FC, .other), (0x10500, .letter), (0x10528, .other), (0x10530, .letter),
  (0x10564, .other), (0x1056F, .punctuation), (0x10570, .upper), (0x1057B, .other),
  (0x1057C, .upper), (0x1058B, .other), (0x1058C, .upper), (0x10593, .other), (0x10594, .upper),
  (0x10596, .other), (0x10597, .lower), (0x105A2, .other), (0x105A3, .lower), (0x105B2, .other),
  (0x105B3, .lower), (0x105BA, .other), (0x105BB, .lower), (0x105BD, .other), (0x105C0, .letter),
  (0x105F4, .other), (0x10600, .letter), (0x10737, .other), (0x10740, .letter), (0x10756, .other),
  (0x10760, .letter), (0x10768, .other), (0x10780, .letter), (0x10786, .other), (0x10787, .letter),
  (0x107B1, .other), (0x107B2, .letter), (0x107BB, .other), (0x10800, .letter), (0x10806, .other),
  (0x10808, .letter), (0x10809, .other), (0x1080A, .letter), (0x10836, .other), (0x10837, .letter),
  (0x10839, .other), (0x1083C, .letter), (0x1083D, .other), (0x1083F, .letter), (0x10856, .other),
  (0x10857, .punctuation), (0x10858, .number), (0x10860, .letter), (0x10877, .symbol),
  (0x10879, .number), (0x10880, .letter), (0x1089F, .other), (0x108A7, .number), (0x108B0, .other),
  (0x108E0, .letter), (0x108F3, .other), (0x108F4, .letter), (0x108F6, .other), (0x108FB, .number),
  (0x10900, .letter), (0x10916, .number), (0x1091C, .other), (0x1091F, .punctuation),
  (0x10920, .letter), (0x1093A, .other), (0x1093F, .punctuation), (0x10940, .letter),
  (0x1095A, .other), (0x10980, .letter), (0x109B8, .other), (0x109BC, .number), (0x109BE, .letter),
  (0x109C0, .number), (0x109D0, .other), (0x109D2, .number), (0x10A00, .letter), (0x10A01, .mark),
  (0x10A04, .other), (0x10A05, .mark), (0x10A07, .other), (0x10A0C, .mark), (0x10A10, .letter),
  (0x10A14, .other), (0x10A15, .letter), (0x10A18, .other), (0x10A19, .letter), (0x10A36, .other),
  (0x10A38, .mark), (0x10A3B, .other), (0x10A3F, .mark), (0x10A40, .number), (0x10A49, .other),
  (0x10A50, .punctuation), (0x10A59, .other), (0x10A60, .letter), (0x10A7D, .number),
  (0x10A7F, .punctuation), (0x10A80, .letter), (0x10A9D, .number), (0x10AA0, .other),
  (0x10AC0, .letter), (0x10AC8, .symbol), (0x10AC9, .letter), (0x10AE5, .mark), (0x10AE7, .other),
  (0x10AEB, .number), (0x10AF0, .punctuation), (0x10AF7, .other), (0x10B00, .letter),
  (0x10B36, .other), (0x10B39, .punctuation), (0x10B40, .letter), (0x10B56, .other),
  (0x10B58, .number), (0x10B60, .letter), (0x10B73, .other), (0x10B78, .number),
  (0x10B80, .letter), (0x10B92, .other), (0x10B99, .punctuation), (0x10B9D, .other),
  (0x10BA9, .number), (0x10BB0, .other), (0x10C00, .letter), (0x10C49, .other), (0x10C80, .upper),
  (0x10CB3, .other), (0x10CC0, .lower), (0x10CF3, .other), (0x10CFA, .number), (0x10D00, .letter),
  (0x10D24, .mark), (0x10D28, .other), (0x10D30, .digit), (0x10D3A, .other), (0x10D40, .digit),
  (0x10D4A, .letter), (0x10D50, .upper), (0x10D66, .other), (0x10D69, .mark),
  (0x10D6E, .punctuation), (0x10D6F, .letter), (0x10D70, .lower), (0x10D86, .other),
  (0x10D8E, .symbol), (0x10D90, .other), (0x10E60, .number), (0x10E7F, .other), (0x10E80, .letter),
  (0x10EAA, .other), (0x10EAB, .mark), (0x10EAD, .punctuation), (0x10EAE, .other),
  (0x10EB0, .letter), (0x10EB2, .other), (0x10EC2, .letter), (0x10EC8, .other),
  (0x10ED0, .punctuation), (0x10ED1, .symbol), (0x10ED9, .other), (0x10EFA, .mark),
  (0x10F00, .letter), (0x10F1D, .number), (0x10F27, .letter), (0x10F28, .other),
  (0x10F30, .letter), (0x10F46, .mark), (0x10F51, .number), (0x10F55, .punctuation),
  (0x10F5A, .other), (0x10F70, .letter), (0x10F82, .mark), (0x10F86, .punctuation),
  (0x10F8A, .other), (0x10FB0, .letter), (0x10FC5, .number), (0x10FCC, .other), (0x10FE0, .letter),
  (0x10FF7, .other)]

def from11000 : List (Nat × Category) := [
  (0x11000, .mark), (0x11003, .letter), (0x11038, .mark), (0x11047, .punctuation),
  (0x1104E, .other), (0x11052, .number), (0x11066, .digit), (0x11070, .mark), (0x11071, .letter),
  (0x11073, .mark), (0x11075, .letter), (0x11076, .other), (0x1107F, .mark), (0x11083, .letter),
  (0x110B0, .mark), (0x110BB, .punctuation), (0x110BD, .other), (0x110BE, .punctuation),
  (0x110C2, .mark), (0x110C3, .other), (0x110D0, .letter), (0x110E9, .other), (0x110F0, .digit),
  (0x110FA, .other), (0x11100, .mark), (0x11103, .letter), (0x11127, .mark), (0x11135, .other),
  (0x11136, .digit), (0x11140, .punctuation), (0x11144, .letter), (0x11145, .mark),
  (0x11147, .letter), (0x11148, .other), (0x11150, .letter), (0x11173, .mark),
  (0x11174, .punctuation), (0x11176, .letter), (0x11177, .other), (0x11180, .mark),
  (0x11183, .letter), (0x111B3, .mark), (0x111C1, .letter), (0x111C5, .punctuation),
  (0x111C9, .mark), (0x111CD, .punctuation), (0x111CE, .mark), (0x111D0, .digit),
  (0x111DA, .letter), (0x111DB, .punctuation), (0x111DC, .letter), (0x111DD, .punctuation),
  (0x111E0, .other), (0x111E1, .number), (0x111F5, .other), (0x11200, .letter), (0x11212, .other),
  (0x11213, .letter), (0x1122C, .mark), (0x11238, .punctuation), (0x1123E, .mark),
  (0x1123F, .letter), (0x11241, .mark), (0x11242, .other), (0x11280, .letter), (0x11287, .other),
  (0x11288, .letter), (0x11289, .other), (0x1128A, .letter), (0x1128E, .other), (0x1128F, .letter),
  (0x1129E, .other), (0x1129F, .letter), (0x112A9, .punctuation), (0x112AA, .other),
  (0x112B0, .letter), (0x112DF, .mark), (0x112EB, .other), (0x112F0, .digit), (0x112FA, .other),
  (0x11300, .mark), (0x11304, .other), (0x11305, .letter), (0x1130D, .other), (0x1130F, .letter),
  (0x11311, .other), (0x11313, .letter), (0x11329, .other), (0x1132A, .letter), (0x11331, .other),
  (0x11332, .letter), (0x11334, .other), (0x11335, .letter), (0x1133A, .other), (0x1133B, .mark),
  (0x1133D, .letter), (0x1133E, .mark), (0x11345, .other), (0x11347, .mark), (0x11349, .other),
  (0x1134B, .mark), (0x1134E, .other), (0x11350, .letter), (0x11351, .other), (0x11357, .mark),
  (0x11358, .other), (0x1135D, .letter), (0x11362, .mark), (0x11364, .other), (0x11366, .mark),
  (0x1136D, .other), (0x11370, .mark), (0x11375, .other), (0x11380, .letter), (0x1138A, .other),
  (0x1138B, .letter), (0x1138C, .other), (0x1138E, .letter), (0x1138F, .other), (0x11390, .letter),
  (0x113B6, .other), (0x113B7, .letter), (0x113B8, .mark), (0x113C1, .other), (0x113C2, .mark),
  (0x113C3, .other), (0x113C5, .mark), (0x113C6, .other), (0x113C7, .mark), (0x113CB, .other),
  (0x113CC, .mark), (0x113D1, .letter), (0x113D2, .mark), (0x113D3, .letter),
  (0x113D4, .punctuation), (0x113D6, .other), (0x113D7, .punctuation), (0x113D9, .other),
  (0x113E1, .mark), (0x113E3, .other), (0x11400, .letter), (0x11435, .mark), (0x11447, .letter),
  (0x1144B, .punctuation), (0x11450, .digit), (0x1145A, .punctuation), (0x1145C, .other),
  (0x1145D, .punctuation), (0x1145E, .mark), (0x1145F, .letter), (0x11462, .other),
  (0x11480, .letter), (0x114B0, .mark), (0x114C4, .letter), (0x114C6, .punctuation),
  (0x114C7, .letter), (0x114C8, .other), (0x114D0, .digit), (0x114DA, .other), (0x11580, .letter),
  (0x115AF, .mark), (0x115B6, .other), (0x115B8, .mark), (0x115C1, .punctuation),
  (0x115D8, .letter), (0x115DC, .mark), (0x115DE, .other), (0x11600, .letter), (0x11630, .mark),
  (0x11641, .punctuation), (0x11644, .letter), (0x11645, .other), (0x11650, .digit),
  (0x1165A, .other), (0x11660, .punctuation), (0x1166D, .other), (0x11680, .letter),
  (0x116AB, .mark), (0x116B8, .letter), (0x116B9, .punctuation), (0x116BA, .other),
  (0x116C0, .digit), (0x116CA, .other), (0x116D0, .digit), (0x116E4, .other), (0x11700, .letter),
  (0x1171B, .other), (0x1171D, .mark), (0x1172C, .other), (0x11730, .digit), (0x1173A, .number),
  (0x1173C, .punctuation), (0x1173F, .symbol), (0x11740, .letter), (0x11747, .other),
  (0x11800, .letter), (0x1182C, .mark), (0x1183B, .punctuation), (0x1183C, .other),
  (0x118A0, .upper), (0x118C0, .lower), (0x118E0, .digit), (0x118EA, .number), (0x118F3, .other),
  (0x118FF, .letter), (0x11907, .other), (0x11909, .letter), (0x1190A, .other), (0x1190C, .letter),
  (0x11914, .other), (0x11915, .letter), (0x11917, .other), (0x11918, .letter), (0x11930, .mark),
  (0x11936, .other), (0x11937, .mark), (0x11939, .other), (0x1193B, .mark), (0x1193F, .letter),
  (0x11940, .mark), (0x11941, .letter), (0x11942, .mark), (0x11944, .punctuation),
  (0x11947, .other), (0x11950, .digit), (0x1195A, .other), (0x119A0, .letter), (0x119A8, .other),
  (0x119AA, .letter), (0x119D1, .mark), (0x119D8, .other), (0x119DA, .mark), (0x119E1, .letter),
  (0x119E2, .punctuation), (0x119E3, .letter), (0x119E4, .mark), (0x119E5, .other),
  (0x11A00, .letter), (0x11A01, .mark), (0x11A0B, .letter), (0x11A33, .mark), (0x11A3A, .letter),
  (0x11A3B, .mark), (0x11A3F, .punctuation), (0x11A47, .mark), (0x11A48, .other),
  (0x11A50, .letter), (0x11A51, .mark), (0x11A5C, .letter), (0x11A8A, .mark),
  (0x11A9A, .punctuation), (0x11A9D, .letter), (0x11A9E, .punctuation), (0x11AA3, .other),
  (0x11AB0, .letter), (0x11AF9, .other), (0x11B00, .punctuation), (0x11B0A, .other),
  (0x11B60, .mark), (0x11B68, .other), (0x11BC0, .letter), (0x11BE1, .punctuation),
  (0x11BE2, .other), (0x11BF0, .digit), (0x11BFA, .other), (0x11C00, .letter), (0x11C09, .other),
  (0x11C0A, .letter), (0x11C2F, .mark), (0x11C37, .other), (0x11C38, .mark), (0x11C40, .letter),
  (0x11C41, .punctuation), (0x11C46, .other), (0x11C50, .digit), (0x11C5A, .number),
  (0x11C6D, .other), (0x11C70, .punctuation), (0x11C72, .letter), (0x11C90, .other),
  (0x11C92, .mark), (0x11CA8, .other), (0x11CA9, .mark), (0x11CB7, .other), (0x11D00, .letter),
  (0x11D07, .other), (0x11D08, .letter), (0x11D0A, .other), (0x11D0B, .letter), (0x11D31, .mark),
  (0x11D37, .other), (0x11D3A, .mark), (0x11D3B, .other), (0x11D3C, .mark), (0x11D3E, .other),
  (0x11D3F, .mark), (0x11D46, .letter), (0x11D47, .mark), (0x11D48, .other), (0x11D50, .digit),
  (0x11D5A, .other), (0x11D60, .letter), (0x11D66, .other), (0x11D67, .letter), (0x11D69, .other),
  (0x11D6A, .letter), (0x11D8A, .mark), (0x11D8F, .other), (0x11D90, .mark), (0x11D92, .other),
  (0x11D93, .mark), (0x11D98, .letter), (0x11D99, .other), (0x11DA0, .digit), (0x11DAA, .other),
  (0x11DB0, .letter), (0x11DDC, .other), (0x11DE0, .digit), (0x11DEA, .other), (0x11EE0, .letter),
  (0x11EF3, .mark), (0x11EF7, .punctuation), (0x11EF9, .other), (0x11F00, .mark),
  (0x11F02, .letter), (0x11F03, .mark), (0x11F04, .letter), (0x11F11, .other), (0x11F12, .letter),
  (0x11F34, .mark), (0x11F3B, .other), (0x11F3E, .mark), (0x11F43, .punctuation),
  (0x11F50, .digit), (0x11F5A, .mark), (0x11F5B, .other), (0x11FB0, .letter), (0x11FB1, .other),
  (0x11FC0, .number), (0x11FD5, .symbol), (0x11FF2, .other), (0x11FFF, .punctuation),
  (0x12000, .letter), (0x1239A, .other), (0x12400, .number), (0x1246F, .other),
  (0x12470, .punctuation), (0x12475, .other), (0x12480, .letter), (0x12544, .other),
  (0x12F90, .letter), (0x12FF1, .punctuation), (0x12FF3, .other), (0x13000, .letter),
  (0x13430, .other), (0x13440, .mark), (0x13441, .letter), (0x13447, .mark), (0x13456, .other),
  (0x13460, .letter), (0x143FB, .other), (0x14400, .letter), (0x14647, .other)]

def from16000 : List (Nat × Category) := [
  (0x16100, .letter), (0x1611E, .mark), (0x16130, .digit), (0x1613A, .other), (0x16800, .letter),
  (0x16A39, .other), (0x16A40, .letter), (0x16A5F, .other), (0x16A60, .digit), (0x16A6A, .other),
  (0x16A6E, .punctuation), (0x16A70, .letter), (0x16ABF, .other), (0x16AC0, .digit),
  (0x16ACA, .other), (0x16AD0, .letter), (0x16AEE, .other), (0x16AF0, .mark),
  (0x16AF5, .punctuation), (0x16AF6, .other), (0x16B00, .letter), (0x16B30, .mark),
  (0x16B37, .punctuation), (0x16B3C, .symbol), (0x16B40, .letter), (0x16B44, .punctuation),
  (0x16B45, .symbol), (0x16B46, .other), (0x16B50, .digit), (0x16B5A, .other), (0x16B5B, .number),
  (0x16B62, .other), (0x16B63, .letter), (0x16B78, .other), (0x16B7D, .letter), (0x16B90, .other),
  (0x16D40, .letter), (0x16D6D, .punctuation), (0x16D70, .digit), (0x16D7A, .other),
  (0x16E40, .upper), (0x16E60, .lower), (0x16E80, .number), (0x16E97, .punctuation),
  (0x16E9B, .other), (0x16EA0, .upper), (0x16EB9, .other), (0x16EBB, .lower), (0x16ED4, .other),
  (0x16F00, .letter), (0x16F4B, .other), (0x16F4F, .mark), (0x16F50, .letter), (0x16F51, .mark),
  (0x16F88, .other), (0x16F8F, .mark), (0x16F93, .letter), (0x16FA0, .other), (0x16FE0, .letter),
  (0x16FE2, .punctuation), (0x16FE3, .letter), (0x16FE4, .mark), (0x16FE5, .other),
  (0x16FF0, .mark), (0x16FF2, .letter), (0x16FF4, .number), (0x16FF7, .other), (0x17000, .letter),
  (0x18CD6, .other), (0x18CFF, .letter), (0x18D1F, .other), (0x18D80, .letter), (0x18DF3, .other),
  (0x1AFF0, .letter), (0x1AFF4, .other), (0x1AFF5, .letter), (0x1AFFC, .other), (0x1AFFD, .letter),
  (0x1AFFF, .other), (0x1B000, .letter), (0x1B123, .other), (0x1B132, .letter), (0x1B133, .other),
  (0x1B150, .letter), (0x1B153, .other), (0x1B155, .letter), (0x1B156, .other), (0x1B164, .letter),
  (0x1B168, .other), (0x1B170, .letter), (0x1B2FC, .other), (0x1BC00, .letter), (0x1BC6B, .other),
  (0x1BC70, .letter), (0x1BC7D, .other), (0x1BC80, .letter), (0x1BC89, .other), (0x1BC90, .letter),
  (0x1BC9A, .other), (0x1BC9C, .symbol), (0x1BC9D, .mark), (0x1BC9F, .punctuation),
  (0x1BCA0, .other), (0x1CC00, .symbol), (0x1CCF0, .digit), (0x1CCFA, .symbol), (0x1CCFD, .other),
  (0x1CD00, .symbol), (0x1CEB4, .other), (0x1CEBA, .symbol), (0x1CED1, .other), (0x1CEE0, .symbol),
  (0x1CEF1, .other), (0x1CF00, .mark), (0x1CF2E, .other), (0x1CF30, .mark), (0x1CF47, .other),
  (0x1CF50, .symbol), (0x1CFC4, .other), (0x1D000, .symbol), (0x1D0F6, .other), (0x1D100, .symbol),
  (0x1D127, .other), (0x1D129, .symbol), (0x1D165, .mark), (0x1D16A, .symbol), (0x1D16D, .mark),
  (0x1D173, .other), (0x1D17B, .mark), (0x1D183, .symbol), (0x1D185, .mark), (0x1D18C, .symbol),
  (0x1D1AA, .mark), (0x1D1AE, .symbol), (0x1D1EB, .other), (0x1D200, .symbol), (0x1D242, .mark),
  (0x1D245, .symbol), (0x1D246, .other), (0x1D2C0, .number), (0x1D2D4, .other), (0x1D2E0, .number),
  (0x1D2F4, .other), (0x1D300, .symbol), (0x1D357, .other), (0x1D360, .number), (0x1D379, .other)]

def from1D400 : List (Nat × Category) := [
  (0x1D400, .upper), (0x1D41A, .lower), (0x1D434, .upper), (0x1D44E, .lower), (0x1D455, .other),
  (0x1D456, .lower), (0x1D468, .upper), (0x1D482, .lower), (0x1D49C, .upper), (0x1D49D, .other),
  (0x1D49E, .upper), (0x1D4A0, .other), (0x1D4A2, .upper), (0x1D4A3, .other), (0x1D4A5, .upper),
  (0x1D4A7, .other), (0x1D4A9, .upper), (0x1D4AD, .other), (0x1D4AE, .upper), (0x1D4B6, .lower),
  (0x1D4BA, .other), (0x1D4BB, .lower), (0x1D4BC, .other), (0x1D4BD, .lower), (0x1D4C4, .other),
  (0x1D4C5, .lower), (0x1D4D0, .upper), (0x1D4EA, .lower), (0x1D504, .upper), (0x1D506, .other),
  (0x1D507, .upper), (0x1D50B, .other), (0x1D50D, .upper), (0x1D515, .other), (0x1D516, .upper),
  (0x1D51D, .other), (0x1D51E, .lower), (0x1D538, .upper), (0x1D53A, .other), (0x1D53B, .upper),
  (0x1D53F, .other), (0x1D540, .upper), (0x1D545, .other), (0x1D546, .upper), (0x1D547, .other),
  (0x1D54A, .upper), (0x1D551, .other), (0x1D552, .lower), (0x1D56C, .upper), (0x1D586, .lower),
  (0x1D5A0, .upper), (0x1D5BA, .lower), (0x1D5D4, .upper), (0x1D5EE, .lower), (0x1D608, .upper),
  (0x1D622, .lower), (0x1D63C, .upper), (0x1D656, .lower), (0x1D670, .upper), (0x1D68A, .lower),
  (0x1D6A6, .other), (0x1D6A8, .upper), (0x1D6C1, .symbol), (0x1D6C2, .lower), (0x1D6DB, .symbol),
  (0x1D6DC, .lower), (0x1D6E2, .upper), (0x1D6FB, .symbol), (0x1D6FC, .lower), (0x1D715, .symbol),
  (0x1D716, .lower), (0x1D71C, .upper), (0x1D735, .symbol), (0x1D736, .lower), (0x1D74F, .symbol),
  (0x1D750, .lower), (0x1D756, .upper), (0x1D76F, .symbol), (0x1D770, .lower), (0x1D789, .symbol),
  (0x1D78A, .lower), (0x1D790, .upper), (0x1D7A9, .symbol), (0x1D7AA, .lower), (0x1D7C3, .symbol),
  (0x1D7C4, .lower), (0x1D7CA, .upper), (0x1D7CB, .lower), (0x1D7CC, .other), (0x1D7CE, .digit),
  (0x1D800, .symbol), (0x1DA00, .mark), (0x1DA37, .symbol), (0x1DA3B, .mark), (0x1DA6D, .symbol),
  (0x1DA75, .mark), (0x1DA76, .symbol), (0x1DA84, .mark), (0x1DA85, .symbol),
  (0x1DA87, .punctuation), (0x1DA8C, .other), (0x1DA9B, .mark), (0x1DAA0, .other),
  (0x1DAA1, .mark), (0x1DAB0, .other), (0x1DF00, .lower), (0x1DF0A, .letter), (0x1DF0B, .lower),
  (0x1DF1F, .other), (0x1DF25, .lower), (0x1DF2B, .other), (0x1E000, .mark), (0x1E007, .other),
  (0x1E008, .mark), (0x1E019, .other), (0x1E01B, .mark), (0x1E022, .other), (0x1E023, .mark),
  (0x1E025, .other), (0x1E026, .mark), (0x1E02B, .other), (0x1E030, .letter), (0x1E06E, .other),
  (0x1E08F, .mark), (0x1E090, .other), (0x1E100, .letter), (0x1E12D, .other), (0x1E130, .mark),
  (0x1E137, .letter), (0x1E13E, .other), (0x1E140, .digit), (0x1E14A, .other), (0x1E14E, .letter),
  (0x1E14F, .symbol), (0x1E150, .other), (0x1E290, .letter), (0x1E2AE, .mark), (0x1E2AF, .other),
  (0x1E2C0, .letter), (0x1E2EC, .mark), (0x1E2F0, .digit), (0x1E2FA, .other), (0x1E2FF, .symbol),
  (0x1E300, .other), (0x1E4D0, .letter), (0x1E4EC, .mark), (0x1E4F0, .digit), (0x1E4FA, .other),
  (0x1E5D0, .letter), (0x1E5EE, .mark), (0x1E5F0, .letter), (0x1E5F1, .digit), (0x1E5FB, .other),
  (0x1E5FF, .punctuation), (0x1E600, .other), (0x1E6C0, .letter), (0x1E6DF, .other),
  (0x1E6E0, .letter), (0x1E6E3, .mark), (0x1E6E4, .letter), (0x1E6E6, .mark), (0x1E6E7, .letter),
  (0x1E6EE, .mark), (0x1E6F0, .letter), (0x1E6F5, .mark), (0x1E6F6, .other), (0x1E6FE, .letter),
  (0x1E700, .other), (0x1E7E0, .letter), (0x1E7E7, .other), (0x1E7E8, .letter), (0x1E7EC, .other),
  (0x1E7ED, .letter), (0x1E7EF, .other), (0x1E7F0, .letter), (0x1E7FF, .other), (0x1E800, .letter),
  (0x1E8C5, .other), (0x1E8C7, .number), (0x1E8D0, .mark), (0x1E8D7, .other), (0x1E900, .upper),
  (0x1E922, .lower), (0x1E944, .mark), (0x1E94B, .letter), (0x1E94C, .other), (0x1E950, .digit),
  (0x1E95A, .other), (0x1E95E, .punctuation), (0x1E960, .other), (0x1EC71, .number),
  (0x1ECAC, .symbol), (0x1ECAD, .number), (0x1ECB0, .symbol), (0x1ECB1, .number),
  (0x1ECB5, .other), (0x1ED01, .number), (0x1ED2E, .symbol), (0x1ED2F, .number), (0x1ED3E, .other),
  (0x1EE00, .letter), (0x1EE04, .other), (0x1EE05, .letter), (0x1EE20, .other), (0x1EE21, .letter),
  (0x1EE23, .other), (0x1EE24, .letter), (0x1EE25, .other), (0x1EE27, .letter), (0x1EE28, .other),
  (0x1EE29, .letter), (0x1EE33, .other), (0x1EE34, .letter), (0x1EE38, .other), (0x1EE39, .letter),
  (0x1EE3A, .other), (0x1EE3B, .letter), (0x1EE3C, .other), (0x1EE42, .letter), (0x1EE43, .other),
  (0x1EE47, .letter), (0x1EE48, .other), (0x1EE49, .letter), (0x1EE4A, .other), (0x1EE4B, .letter),
  (0x1EE4C, .other), (0x1EE4D, .letter), (0x1EE50, .other), (0x1EE51, .letter), (0x1EE53, .other),
  (0x1EE54, .letter), (0x1EE55, .other), (0x1EE57, .letter), (0x1EE58, .other), (0x1EE59, .letter),
  (0x1EE5A, .other), (0x1EE5B, .letter), (0x1EE5C, .other), (0x1EE5D, .letter), (0x1EE5E, .other),
  (0x1EE5F, .letter), (0x1EE60, .other), (0x1EE61, .letter), (0x1EE63, .other), (0x1EE64, .letter),
  (0x1EE65, .other), (0x1EE67, .letter), (0x1EE6B, .other), (0x1EE6C, .letter), (0x1EE73, .other),
  (0x1EE74, .letter), (0x1EE78, .other), (0x1EE79, .letter), (0x1EE7D, .other), (0x1EE7E, .letter),
  (0x1EE7F, .other), (0x1EE80, .letter), (0x1EE8A, .other), (0x1EE8B, .letter), (0x1EE9C, .other),
  (0x1EEA1, .letter), (0x1EEA4, .other), (0x1EEA5, .letter), (0x1EEAA, .other), (0x1EEAB, .letter),
  (0x1EEBC, .other), (0x1EEF0, .symbol), (0x1EEF2, .other)]

def from1F000 : List (Nat × Category) := [
  (0x1F000, .symbol), (0x1F02C, .other), (0x1F030, .symbol), (0x1F094, .other), (0x1F0A0, .symbol),
  (0x1F0AF, .other), (0x1F0B1, .symbol), (0x1F0C0, .other), (0x1F0C1, .symbol), (0x1F0D0, .other),
  (0x1F0D1, .symbol), (0x1F0F6, .other), (0x1F100, .number), (0x1F10D, .symbol), (0x1F1AE, .other),
  (0x1F1E6, .symbol), (0x1F203, .other), (0x1F210, .symbol), (0x1F23C, .other), (0x1F240, .symbol),
  (0x1F249, .other), (0x1F250, .symbol), (0x1F252, .other), (0x1F260, .symbol), (0x1F266, .other),
  (0x1F300, .symbol), (0x1F6D9, .other), (0x1F6DC, .symbol), (0x1F6ED, .other), (0x1F6F0, .symbol),
  (0x1F6FD, .other), (0x1F700, .symbol), (0x1F7DA, .other), (0x1F7E0, .symbol), (0x1F7EC, .other),
  (0x1F7F0, .symbol), (0x1F7F1, .other), (0x1F800, .symbol), (0x1F80C, .other), (0x1F810, .symbol),
  (0x1F848, .other), (0x1F850, .symbol), (0x1F85A, .other), (0x1F860, .symbol), (0x1F888, .other),
  (0x1F890, .symbol), (0x1F8AE, .other), (0x1F8B0, .symbol), (0x1F8BC, .other), (0x1F8C0, .symbol),
  (0x1F8C2, .other), (0x1F8D0, .symbol), (0x1F8D9, .other), (0x1F900, .symbol), (0x1FA58, .other),
  (0x1FA60, .symbol), (0x1FA6E, .other), (0x1FA70, .symbol), (0x1FA7D, .other), (0x1FA80, .symbol),
  (0x1FA8B, .other), (0x1FA8E, .symbol), (0x1FAC7, .other), (0x1FAC8, .symbol), (0x1FAC9, .other),
  (0x1FACD, .symbol), (0x1FADD, .other), (0x1FADF, .symbol), (0x1FAEB, .other), (0x1FAEF, .symbol),
  (0x1FAF9, .other), (0x1FB00, .symbol), (0x1FB93, .other), (0x1FB94, .symbol), (0x1FBF0, .digit),
  (0x1FBFA, .symbol), (0x1FBFB, .other), (0x20000, .letter), (0x2A6E0, .other), (0x2A700, .letter),
  (0x2B81E, .other), (0x2B820, .letter), (0x2CEAE, .other), (0x2CEB0, .letter), (0x2EBE1, .other),
  (0x2EBF0, .letter), (0x2EE5E, .other), (0x2F800, .letter), (0x2FA1E, .other), (0x30000, .letter),
  (0x3134B, .other), (0x31350, .letter), (0x3347A, .other), (0xE0100, .mark), (0xE01F0, .other)]

/-- All boundaries. -/
def boundaries : Array (Nat × Category) :=
  [from0080, from0400, from0900, from0E00, from1400, from1E00, from2C00, fromA640, fromFB00,
    from11000, from16000, from1D400, from1F000].flatten.toArray

/-- The index of the last of the runs from `lo` up to `hi` that starts at or below `n`. -/
def runOf (runs : Array (Nat × Category)) (n lo hi : Nat) : Nat :=
  if hi ≤ lo + 1 then lo
  else
    let mid := (lo + hi) / 2
    if (runs[mid]?.getD (0, .other)).1 ≤ n then runOf runs n mid hi
    else runOf runs n lo mid
termination_by hi - lo

/-- The general category of a character. -/
def ofChar (c : Char) : Category :=
  if c.toNat < 0x80 then ofAscii c
  else (boundaries[runOf boundaries c.toNat 0 boundaries.size]?.getD (0, .other)).2

end PrologText.Category
