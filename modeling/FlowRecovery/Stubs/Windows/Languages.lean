/-!
# Libraries of C and C++

What libraries for programs in C and C++ export. The texts are those that `Stub.ofText` reads.
-/

namespace FlowRecovery.Stubs.Windows

def msvcp80 : String := "
??6?$basic_ostream@DU?$char_traits@D@std@@@std@@QAEAAV01@(H@Z4 P6AAAV01@AAV01@@Z@Z4)
?cout@std@@3V?$basic_ostream@DU?$char_traits@D@std@@@1@A-
?endl@std@@YAAAV?$basic_ostream@DU?$char_traits@D@std@@@1@AAV21@@Z- DsGetDcClose2
"

def runtime : String := "
!(_c_exit0 _cexit0 _exit0 exit0) _(HUGE- _(argc- argv- badioinfo- initenv- lc_(codepage-
collate_cp\t- handle-) mb_cur_max- pioinfo- setlc_active- unguarded_readlc_active- wargv- winitenv-)
acmdln- adjust_fdiv- aexit_rtn- commode- ctype- daylight- dstbias- environ- fileinfo- fmode-
fpreset- iob- mbctype- onexit- osplatform\t- osver- pctype- pgmptr- pwctype- sys_(errlist- nerr-)
timezone- tzname- wcmdln- wenviron- winmajor- winminor- winver- wpgmptr-) atexit-
"

def msvcr80 : String := "
_mkgmtime- _wctime- ctime- gmtime- localtime- longjmp- mktime- time-
"

end FlowRecovery.Stubs.Windows
